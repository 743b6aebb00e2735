import TuduOS.Mem.SmallAlloc

/-!
# The bytes of the areas

* `SameBytes s t d`: the areas of the blocks `d` have the bytes that they had. The functions write
  headers and the area that they return.
* `realloc_keeps_iff`: when `rt_realloc` keeps the bytes of all areas.
-/

namespace Tudu.Mem

namespace Heap

open Bytes Ordered

variable {s t u : Heap} {b c p q n x : Nat} {k d : Finset Nat}

/-- The areas of the blocks `d` are as before. -/
structure SameBytes (s t : Heap) (d : Finset Nat) : Prop where
  ptr : t.heapPtr = s.heapPtr
  mem : ∀ b ∈ d, ∀ a, s.heapPtr + b + 12 ≤ a → a < s.heapPtr + s.get .next b → t.mem a = s.mem a

namespace SameBytes

theorem refl : SameBytes s s d := ⟨rfl, fun _ _ _ _ _ => rfl⟩

theorem trans (h : SameBytes s t d) (h' : SameBytes t u d)
    (hn : ∀ b ∈ d, t.get .next b = s.get .next b) : SameBytes s u d := by
  refine ⟨h'.ptr.trans h.ptr, fun b hb a h1 h2 => ?_⟩
  rw [h'.mem b hb a (h.ptr ▸ h1) (by rw [h.ptr, hn b hb]; exact h2), h.mem b hb a h1 h2]

theorem mono {d' : Finset Nat} (h : SameBytes s t d) (hd : d' ⊆ d) : SameBytes s t d' :=
  ⟨h.ptr, fun b hb => h.mem b (hd hb)⟩

/-- Only headers are written. -/
theorem of_outside (hB : Blocks s x k) (hd : d ⊆ k) (hp : t.heapPtr = s.heapPtr)
    (hm : ∀ a, s.Outside k a → t.mem a = s.mem a) : SameBytes s t d :=
  ⟨hp, fun _ hb a h1 h2 => hm a fun _ hc => area_apart hB (hd hb) h1 h2 hc⟩

end SameBytes

theorem usedBlocks_subset : s.usedBlocks k ⊆ k := Finset.filter_subset _ k

/-! ## `plug_holes` -/

theorem merge_mem {a : Nat} (hB : Blocks s x k) (hb : b ∈ k) (hbe : b ≠ s.heapEnd)
    (hc : s.get .next b = c) (ha : s.Outside k a) : (s.merge b c).mem a = s.mem a := by
  have hck : c ∈ k := hc ▸ hB.next_mem hb
  have hbc : b ≠ c := hc ▸ (hB.leads.lt b hb hbe).ne
  unfold merge
  rw [get_set_ne (hB.apart hb hck) (.inr hbc)]
  exact (set_mem (s := s.set .next b (s.get .next c)) (hB.next_mem hck) ha).trans (set_mem hb ha)

section Plug

variable (hB : Blocks s x k) (hL : Low s k) (hx : x ∈ k) (hu : s.get .used x = 0)

include hB hL hx hu

theorem plugForward_bytes : SameBytes s (s.plugForward x) (s.usedBlocks k) := by
  have hxe := hB.ne_end hu
  have hlow : s.lfree ≠ s.get .next x := by
    have h1 := hL.le x hx hu
    have h2 := hB.leads.lt x hx hxe
    omega
  by_cases hcond : x ≠ s.get .next x ∧ s.get .used (s.get .next x) = 0 ∧ s.get .next x ≠ s.heapEnd
  · have hs : s.plugForward x = s.merge x (s.get .next x) := by
      simp only [plugForward]
      rw [if_pos hcond, if_neg hlow]
      rfl
    rw [hs]
    exact .of_outside hB usedBlocks_subset rfl fun a ha => merge_mem hB hx hxe rfl ha
  · have hs : s.plugForward x = s := by
      simp only [plugForward]
      rw [if_neg hcond]
    rw [hs]
    exact .refl

theorem plugBackward_bytes : SameBytes s (s.plugBackward x) (s.usedBlocks k) := by
  have hxe := hB.ne_end hu
  by_cases hcond : s.get .prev x ≠ x ∧ s.get .used (s.get .prev x) = 0
  · have hx0 : x ≠ 0 := by
      rintro rfl
      exact hcond.1 hB.startPrev
    obtain ⟨hp, hpe, hnp⟩ := hB.prev_mem hx hx0 hxe
    have hlow : s.lfree ≠ x := by
      have h1 := hL.le _ hp hcond.2
      have h2 := hB.leads.lt _ hp hpe
      omega
    have hs : s.plugBackward x = s.merge (s.get .prev x) x := by
      simp only [plugBackward]
      rw [if_pos hcond, if_neg hlow]
      rfl
    rw [hs]
    exact .of_outside hB usedBlocks_subset rfl fun a ha => merge_mem hB hp hpe hnp ha
  · have hs : s.plugBackward x = s := by
      simp only [plugBackward]
      rw [if_neg hcond]
    rw [hs]
    exact .refl

theorem plugHoles_bytes (h : s.plugHoles x = some t) : SameBytes s t (s.usedBlocks k) := by
  unfold plugHoles at h
  split at h
  · obtain rfl := Option.some.inj h
    obtain ⟨k1, hB₁, hL₁, hK₁, hx1, hu1, -⟩ := plugForward_spec hB hL hx hu
    have h2 := plugBackward_bytes hB₁ hL₁ hx1 hu1
    rw [hK₁.used] at h2
    exact (plugForward_bytes hB hL hx hu).trans h2 hK₁.next
  · cases h

end Plug

/-! ## The functions -/

theorem Outside.congr {a : Nat} (h : s.Outside k a) (hp : t.heapPtr = s.heapPtr) :
    t.Outside k a := by
  unfold Outside
  rw [hp]
  exact h

/-- The block that is taken gets its flag and its magic. -/
theorem use_mem {a m : Nat} (hb : b ∈ k) (ha : s.Outside k a) :
    (((s.set .used b 1).charge m).set .magic b heapMagic).mem a = s.mem a :=
  (set_mem (s := (s.set .used b 1).charge m) hb ha).trans (set_mem hb ha)

/-- A header that is made in the area of `b` is in no other area. -/
theorem outside_insert {a : Nat} (hB : Blocks s x k) (hb : b ∈ k) (hc : c ∈ k) (hcb : c ≠ b)
    (hn1 : b + 12 ≤ n) (hn2 : n + 12 ≤ s.get .next b) (h1 : s.heapPtr + c + 12 ≤ a)
    (h2 : a < s.heapPtr + s.get .next c) : s.Outside (insert n k) a := by
  intro e he
  rcases Finset.mem_insert.mp he with rfl | he
  · rcases Nat.lt_or_gt_of_ne hcb with hlt | hlt
    · have := hB.leads.least c hc b hb hlt
      omega
    · have := hB.leads.least b hb c hc hlt
      omega
  · exact area_apart hB hc h1 h2 he

theorem take_bytes (hB : Blocks s s.heapEnd k) (hb : b ∈ k) (hu : s.get .used b = 0) :
    SameBytes s (s.take b n) (s.usedBlocks k) := by
  have hbe := hB.ne_end hu
  simp only [take, area_eq hB hb hbe]
  split
  · rename_i hfit
    have hfit' : n + 12 + 12 ≤ s.get .next b - (b + 12) := hfit
    have hptr : (s.splitBlock b (b + sizeofStructMem + n)).heapPtr = s.heapPtr :=
      (@splitBlock_static s b _).1
    refine ⟨hptr, fun c hc a h1 h2 => ?_⟩
    obtain ⟨hck, hcu⟩ := mem_usedBlocks.mp hc
    have hak : s.Outside k a := fun e he => area_apart hB hck h1 h2 he
    have hcb : c ≠ b := fun he => hcu (he ▸ hu)
    have ha := outside_insert (n := b + sizeofStructMem + n) hB hb hck hcb
      (by unfold sizeofStructMem; omega) (by unfold sizeofStructMem; omega) h1 h2
    exact (use_mem hb (hak.congr hptr)).trans (splitBlock_mem hb (hB.next_mem hb) ha)
  · exact .of_outside hB usedBlocks_subset rfl fun a ha => use_mem hb ha

theorem rtMalloc_bytes (hI : Inv s k) (h : s.rtMalloc n = some (t, p)) :
    SameBytes s t (s.usedBlocks k) := by
  by_cases hserve : n ≠ 0 ∧ rtAlign n ≤ s.memSizeAligned
  · rw [rtMalloc_eq hserve.1 hserve.2] at h
    unfold mallocLoop at h
    split at h
    · cases h
    · obtain ⟨rfl, -⟩ := Prod.mk.inj (Option.some.inj h)
      exact .refl
    · rename_i b hfit
      obtain ⟨hb, hu, -⟩ := findFit_spec hI.blocks hI.low.mem hfit
      have hT : SameBytes s (s.take b (needed n)) (s.usedBlocks k) := take_bytes hI.blocks hb hu
      unfold mallocEnd at h
      split at h
      · cases h
      · split at h
        · obtain ⟨rfl, -⟩ := Prod.mk.inj (Option.some.inj h)
          exact ⟨hT.ptr, hT.mem⟩
        · cases h
  · have ht : t = s := by
      unfold rtMalloc at h
      by_cases h0 : n = 0
      · rw [if_pos h0] at h
        exact (Prod.mk.inj (Option.some.inj h)).1.symm
      · rw [if_neg h0, if_pos (by omega)] at h
        exact (Prod.mk.inj (Option.some.inj h)).1.symm
    rw [ht]
    exact .refl

theorem rtFree_bytes (hI : Inv s k) (hb : b ∈ s.usedBlocks k) (hroom : b + 12 < s.get .next b)
    (hp : p = s.heapPtr + b + 12) (h : s.rtFree p = some t) :
    SameBytes s t ((s.usedBlocks k).erase b) := by
  obtain ⟨v, hv, hU⟩ := rtFree_unplugged hI hb hroom hp
  have hbk := (mem_usedBlocks.mp hb).1
  have hsub : (s.usedBlocks k).erase b ⊆ k := (Finset.erase_subset _ _).trans usedBlocks_subset
  have h1 : SameBytes s v ((s.usedBlocks k).erase b) :=
    .of_outside hI.blocks hsub hU.ptr hU.mem
  have h2 := plugHoles_bytes hU.blocks hU.low hbk hU.unused (hv ▸ h)
  rw [hU.used] at h2
  exact h1.trans h2 fun c hc => hU.next c (hsub hc)

/-! ## `rt_realloc` -/

theorem shrink_bytes {m : Nat} (hI : Inv s k) (hb : b ∈ s.usedBlocks k) (h1 : b + 12 ≤ c)
    (h2 : c + 12 ≤ s.get .next b) (h4 : 4 ∣ c) :
    let u := ({ s with usedMem := m } : Heap).splitBlock b c
    let w := if c < u.lfree then { u with lfree := c } else u
    w.plugHoles c = some t → SameBytes s t ((s.usedBlocks k).erase b) ∧
      ∀ a, s.heapPtr + b + 12 ≤ a → a < s.heapPtr + c → t.mem a = s.mem a := by
  intro u w hx
  have hB := hI.blocks
  have hbk := (mem_usedBlocks.mp hb).1
  obtain ⟨hW, -⟩ : Shortened s k w b c ∧ w.usedMem = m := shrink_shortened hI hb h1 h2 h4
  have hP := plugHoles_bytes hW.blocks hW.low (Finset.mem_insert_self c k) hW.unused hx
  rw [hW.used] at hP
  constructor
  · have hw : SameBytes s w ((s.usedBlocks k).erase b) := by
      refine ⟨hW.ptr, fun d hd a ha1 ha2 => hW.mem a ?_⟩
      obtain ⟨hdb, hd⟩ := Finset.mem_erase.mp hd
      exact outside_insert hB hbk (usedBlocks_subset hd) hdb h1 h2 ha1 ha2
    refine hw.trans (hP.mono (Finset.erase_subset _ _)) fun d hd => ?_
    obtain ⟨hdb, hd⟩ := Finset.mem_erase.mp hd
    rw [hW.next d (usedBlocks_subset hd), if_neg hdb.symm]
  · intro a ha1 ha2
    have hn : w.get .next b = c := by rw [hW.next b hbk, if_pos rfl]
    rw [hP.mem b hb a (hW.ptr ▸ ha1) (by rw [hn, hW.ptr]; exact ha2)]
    refine hW.mem a fun e he => ?_
    rcases Finset.mem_insert.mp he with rfl | he
    · exact .inl ha2
    · exact area_apart hB hbk ha1 (by omega) he

theorem move_bytes {m len : Nat} (hI : Inv s k) (hb : b ∈ s.usedBlocks k)
    (hroom : b + 12 < s.get .next b) (hp : p = s.heapPtr + b + 12) (hm : s.rtMalloc m = some (u, q))
    (hq : q ≠ 0) (hlen : len ≤ rtAlign m) (hle : b + 12 + len ≤ s.get .next b)
    (hf : ({ u with mem := copy u.mem q p len } : Heap).rtFree p = some t) :
    SameBytes s t ((s.usedBlocks k).erase b) ∧ ∀ i < len, t.mem (q + i) = s.mem (p + i) := by
  rcases rtMalloc_spec hI hm with ⟨h, -⟩ | ⟨k1, b', hI₁, hT, hqb, hr⟩
  · exact absurd h hq
  have hM := rtMalloc_bytes hI hm
  have hb1 : b ∈ u.usedBlocks k1 := hT.used.symm ▸ Finset.mem_insert_of_mem hb
  have hb'₁ : b' ∈ u.usedBlocks k1 := hT.used.symm ▸ Finset.mem_insert_self _ _
  have hb'k := usedBlocks_subset hb'₁
  have hne : b ≠ b' := fun he => hT.unused (he ▸ hb)
  have hS : Same u { u with mem := copy u.mem q p len } k1 :=
    same_copy hI₁.blocks hb'k hqb (by omega)
  have hroom' : b + 12 < ({ u with mem := copy u.mem q p len } : Heap).get .next b := by
    rw [hS.get b (usedBlocks_subset hb1), hT.next b hb]
    exact hroom
  have hF := rtFree_bytes (hS.inv rfl rfl hI₁) (hS.used.symm ▸ hb1) hroom'
    (show p = u.heapPtr + b + 12 by rw [hT.ptr]; exact hp) hf
  rw [hS.used, hT.used] at hF
  have hnext : ∀ c ∈ k1, ({ u with mem := copy u.mem q p len } : Heap).get .next c =
      u.get .next c := fun c hc => hS.get c hc .next
  constructor
  · refine ⟨hF.ptr.trans hM.ptr, fun c hc a h1 h2 => ?_⟩
    obtain ⟨hcb, hc⟩ := Finset.mem_erase.mp hc
    have hcb' : c ≠ b' := fun he => hT.unused (he ▸ hc)
    have hc1 : c ∈ k1 := usedBlocks_subset (hT.used.symm ▸ Finset.mem_insert_of_mem hc)
    have hcF : c ∈ (insert b' (s.usedBlocks k)).erase b :=
      Finset.mem_erase.mpr ⟨hcb, Finset.mem_insert_of_mem hc⟩
    have h₁' : u.heapPtr + c + 12 ≤ a := by
      rw [hT.ptr]
      exact h1
    have h₂' : a < u.heapPtr + u.get .next c := by
      rw [hT.ptr, hT.next c hc]
      exact h2
    rw [hF.mem c hcF a h₁' (by rw [hnext c hc1]; exact h₂')]
    refine Eq.trans (if_neg ?_) (hM.mem c hc a h1 h2)
    -- the areas of `c` and `b'` are apart
    rintro ⟨h3, h₄⟩
    rcases Nat.lt_or_gt_of_ne hcb' with hlt | hlt
    · have := hI₁.blocks.leads.least c hc1 b' hb'k hlt
      omega
    · have := hI₁.blocks.leads.least b' hb'k c hc1 hlt
      omega
  · intro i hi
    have hcF : b' ∈ (insert b' (s.usedBlocks k)).erase b :=
      Finset.mem_erase.mpr ⟨Ne.symm hne, Finset.mem_insert_self _ _⟩
    have h1 : u.heapPtr + b' + 12 ≤ q + i := by omega
    have h2 : q + i < u.heapPtr + u.get .next b' := by omega
    rw [hF.mem b' hcF (q + i) h1 (by rw [hnext b' hb'k]; exact h2)]
    have hcopy : copy u.mem q p len (q + i) = u.mem (p + i) := by
      unfold copy
      rw [if_pos (by omega), Nat.add_sub_cancel_left]
    exact hcopy.trans (hM.mem b hb (p + i) (by omega) (by omega))

/-- `rt_realloc(p, n)` went from `s` to `t` with the area `q`. -/
structure Reallocated (s : Heap) (p n : Nat) (t : Heap) (q : Nat) : Prop where
  live : t.Live q
  bytes : ∀ i < min (s.areaSize p) n, t.mem (q + i) = s.mem (p + i)
  others : ∀ r, s.Live r → r ≠ p →
    t.Live r ∧ t.areaSize r = s.areaSize r ∧ ∀ i < s.areaSize r, t.mem (r + i) = s.mem (r + i)

/-- `rt_realloc` keeps the bytes, or it leaves the heap as it is. -/
def ReallocKeeps (s : Heap) (p n : Nat) : Prop :=
  ∀ t q, s.rtRealloc p n = some (t, q) → (q = 0 → t = s) ∧ (q ≠ 0 → Reallocated s p n t q)

theorem Blocks.live_iff (hB : Blocks s x k) : s.Live p ↔
    ∃ b ∈ s.usedBlocks k, b + 12 < s.get .next b ∧ p = s.heapPtr + b + 12 := by
  constructor
  · rintro ⟨b, hb, hu, hroom, hp⟩
    exact ⟨b, mem_usedBlocks.mpr ⟨hB.inList.mp hb, hu⟩, Nat.lt_of_sub_pos hroom, hp⟩
  · rintro ⟨b, hb, hroom, hp⟩
    obtain ⟨hbk, hu⟩ := mem_usedBlocks.mp hb
    exact ⟨b, hB.inList.mpr hbk, hu, Nat.sub_pos_of_lt hroom, hp⟩

/-- The areas of the blocks that are kept. -/
theorem others_kept {y : Nat} {k' : Finset Nat} (hB : Blocks s x k) (hB' : Blocks t y k')
    (hp : p = s.heapPtr + b + 12) (hS : SameBytes s t ((s.usedBlocks k).erase b))
    (hu : ∀ c ∈ s.usedBlocks k, c ≠ b → c ∈ t.usedBlocks k')
    (hn : ∀ c ∈ s.usedBlocks k, c ≠ b → t.get .next c = s.get .next c) :
    ∀ r, s.Live r → r ≠ p →
      t.Live r ∧ t.areaSize r = s.areaSize r ∧ ∀ i < s.areaSize r, t.mem (r + i) = s.mem (r + i) := by
  intro r hr hrp
  obtain ⟨c, hc, hroom, hrc⟩ := hB.live_iff.mp hr
  have hcb : c ≠ b := by
    rintro rfl
    exact hrp (hrc.trans hp.symm)
  have hrc' : r = t.heapPtr + c + 12 := by rw [hrc, hS.ptr]
  have hsize := areaSize_eq hrc
  refine ⟨hB'.live_iff.mpr ⟨c, hu c hc hcb, by rw [hn c hc hcb]; exact hroom, hrc'⟩, ?_, fun i hi => ?_⟩
  · rw [areaSize_eq hrc', hsize, hn c hc hcb]
  · exact hS.mem c (Finset.mem_erase.mpr ⟨hcb, hc⟩) (r + i) (by omega) (by omega)

/-- A size that is not rounded to 0. -/
theorem rtRealloc_keeps (hI : Inv s k) (hp : s.Live p) (h0 : 0 < n) (hn : n ≤ 2 ^ 32 - 4) :
    ReallocKeeps s p n := by
  have hB := hI.blocks
  obtain ⟨b, hb, hroom, hpb⟩ := hB.live_iff.mp hp
  have hbk := usedBlocks_subset hb
  have hsize := areaSize_eq hpb
  obtain ⟨h4, hle, -, -⟩ := rtAlign_spec hn
  intro t q h
  have hp0 : p ≠ 0 := by omega
  cases rtRealloc_way hB hbk hroom hpb h with
  | large _ ht hq => exact ⟨fun _ => ht, fun hne => absurd hq hne⟩
  | freed hz => omega
  | equal _ _ ht hq =>
    subst ht hq
    exact ⟨fun h => absurd h hp0, fun _ => ⟨hp, fun _ _ => rfl, fun r hr _ => ⟨hr, rfl, fun _ _ => rfl⟩⟩⟩
  | short hz hshort hx hq =>
    subst hq
    refine ⟨fun h => absurd h hp0, fun _ => ?_⟩
    have h4' : 4 ∣ b + 12 + rtAlign n := by
      have := hB.align b hbk
      omega
    obtain ⟨t', k', hx', hI', hR⟩ := shrink_spec hI hb rfl hshort h4
    obtain rfl := Option.some.inj (hx'.symm.trans hx)
    obtain ⟨hS, hbytes⟩ := shrink_bytes hI hb (by omega) (by omega) h4' hx
    have hroom' := hR.room
    constructor
    case live => exact hI'.blocks.live_iff.mpr ⟨b, hR.used.symm ▸ hb, by omega, by rw [hpb, hR.ptr]⟩
    case bytes => exact fun i hi => hbytes (q + i) (by omega) (by omega)
    case others =>
      exact others_kept hB hI'.blocks hpb hS (fun c hc _ => hR.used.symm ▸ hc) hR.next
  | null hz hm hq =>
    refine ⟨fun _ => ?_, fun hne => absurd hq hne⟩
    rcases rtMalloc_spec hI hm with ⟨-, ht⟩ | ⟨k', b', -, -, hpb, -⟩
    · exact ht
    · omega
  | moved u hz hm hq0 hf =>
    refine ⟨fun h => absurd h hq0, fun _ => ?_⟩
    have hlen : min (s.get .next b - b - 12) (rtAlign n) ≤ rtAlign (rtAlign n) := by
      rw [rtAlign_rtAlign]
      exact Nat.min_le_right _ _
    obtain ⟨t', k', b', hf', hI', hM, hq⟩ := move_spec hI hb hroom hpb hm hq0 hlen
    obtain rfl := Option.some.inj (hf'.symm.trans hf)
    obtain ⟨hS, hbytes⟩ := move_bytes hI hb hroom hpb hm hq0 hlen (by omega) hf
    have hroom' := hM.room
    rw [rtAlign_rtAlign] at hroom'
    constructor
    case live =>
      exact hI'.blocks.live_iff.mpr
        ⟨b', hM.used.symm ▸ Finset.mem_insert_self _ _, by omega, hq⟩
    case bytes => exact fun i hi => hbytes i (by omega)
    case others =>
      refine others_kept hB hI'.blocks hpb hS (fun c hc hcb => ?_) hM.next
      exact hM.used.symm ▸ Finset.mem_insert_of_mem (Finset.mem_erase.mpr ⟨hcb, hc⟩)

/-- A size that is rounded to 0 frees the area. -/
theorem rtRealloc_frees (hI : Inv s k) (hp : s.Live p) (hz : rtAlign n = 0) :
    ¬ ReallocKeeps s p n := by
  have hB := hI.blocks
  obtain ⟨b, hb, hroom, hpb⟩ := hB.live_iff.mp hp
  obtain ⟨t, k', hf, hI', hF⟩ := rtFree_spec hI hb hroom hpb
  have hr : s.rtRealloc p n = some (t, 0) := by
    simp only [rtRealloc, hz]
    rw [if_neg (by omega), if_pos trivial, hf]
    rfl
  intro hK
  obtain rfl := (hK t 0 hr).1 rfl
  have hkk : k' = k := hI'.blocks.unique hB
  have hused := hF.used
  rw [hkk] at hused
  exact Finset.notMem_erase b _ (hused ▸ hb)

end Heap

open Heap Lts Sys

/-- An area of the program is in a live one. -/
theorem LiveIn.live {s : Heap} {k : Finset Nat} {live : List (Nat × Nat)} {p x : Nat}
    (hB : Blocks s x k) (hL : LiveIn s k live) (hp : p ∈ live.map Prod.fst) : s.Live p := by
  obtain ⟨y, hy, rfl⟩ := List.mem_map.mp hp
  obtain ⟨hpos, b, hb, hyb, hr⟩ := hL.block y hy
  exact hB.live_iff.mpr ⟨b, hb, by omega, hyb⟩

/-- `rt_realloc` keeps the bytes of all areas, or fails without an effect, if and only if the size
is not rounded to 0. -/
theorem realloc_keeps_iff {s : Heap} {m : Bytes.Memory} {beginAddr endAddr : Nat}
    (he : endAddr < 2 ^ 32) (hi : rtSystemHeapInit m beginAddr endAddr = some s) {as : List Act}
    (ha : ∀ a ∈ as, SizeOk a) {x : Sys} (hx : exec step ⟨s, []⟩ as = some x) {p newsize : Nat}
    (hp : p ∈ x.live.map Prod.fst) (h0 : 0 < newsize) (hn : newsize < 2 ^ 32) :
    x.heap.ReallocKeeps p newsize ↔ newsize ≤ 2 ^ 32 - 4 := by
  obtain ⟨k, hI, hL⟩ := exec_inv he hi ha hx
  have hlive := hL.live hI.blocks hp
  refine ⟨fun hK => ?_, rtRealloc_keeps hI hlive h0⟩
  by_contra hgt
  have hz : rtAlign newsize = 0 := by
    unfold rtAlign
    omega
  exact rtRealloc_frees hI hlive hz hK

theorem realloc_keeps_sample : ∃ s x, rtSystemHeapInit (fun _ => 0) 0x1001 0x1103 = some s ∧
    exec step ⟨s, []⟩ sample = some x ∧
    (x.heap.ReallocKeeps 0x1038 12 ↔ 12 ≤ 2 ^ 32 - 4) := by
  obtain ⟨s, x, hs, hx, hlive⟩ := exec_sample
  refine ⟨s, x, hs, hx, realloc_keeps_iff (by decide) hs (by decide) hx ?_ (by decide) (by decide)⟩
  rw [hlive]
  decide

/-- `rt_realloc(p, 2^32 - 1)` frees `p` and returns `NULL`. -/
theorem realloc_loses : ¬ ∀ (m : Bytes.Memory) (beginAddr endAddr : Nat) (s : Heap),
    endAddr < 2 ^ 32 → rtSystemHeapInit m beginAddr endAddr = some s →
    ∀ (as : List Act) (x : Sys), exec step ⟨s, []⟩ as = some x →
    ∀ p newsize, p ∈ x.live.map Prod.fst → 0 < newsize → newsize < 2 ^ 32 →
      x.heap.ReallocKeeps p newsize := by
  intro h
  have hi : (rtSystemHeapInit (fun _ => 0) 0x1000 0x2000).isSome = true := by decide +kernel
  obtain ⟨s, hs⟩ := Option.isSome_iff_exists.mp hi
  have hrun : ((rtSystemHeapInit (fun _ => 0) 0x1000 0x2000).bind fun s =>
      exec step ⟨s, []⟩ [.malloc 16]).map Sys.live = some [(0x100c, 16)] := by decide +kernel
  rw [hs, Option.bind_some] at hrun
  obtain ⟨x, hx, hlive⟩ := Option.map_eq_some_iff.mp hrun
  have hp : 0x100c ∈ x.live.map Prod.fst := by
    rw [hlive]
    decide
  obtain ⟨k, hI, hL⟩ := exec_inv (by decide) hs (by decide) hx
  exact rtRealloc_frees hI (hL.live hI.blocks hp) (by decide)
    (h _ _ _ _ (by decide) hs _ _ hx 0x100c 0xFFFFFFFF hp (by decide) (by decide))

end Tudu.Mem
