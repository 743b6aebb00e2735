import TuduOS.Mem.SmallHeap

/-!
# The system heap over whole runs

* `LiveIn s k live`: the program's areas are in used blocks, each in one of its own.
* `Sys.Inv`: what every step keeps whose sizes do not wrap around.
* `HeapOk s l`: what the heap guarantees, about the list of its blocks.
-/

namespace Tudu.Mem

open Heap Lts

variable {s t : Heap} {k k' : Finset Nat} {live : List (Nat × Nat)} {b n p : Nat}

/-- Every area is in a used block of its own. -/
structure LiveIn (s : Heap) (k : Finset Nat) (live : List (Nat × Nat)) : Prop where
  nodup : (live.map Prod.fst).Nodup
  block : ∀ x ∈ live, 0 < x.2 ∧ ∃ b ∈ s.usedBlocks k, x.1 = s.heapPtr + b + 12 ∧
    b + 12 + x.2 ≤ s.get .next b

namespace LiveIn

/-- The blocks of the areas are as before. -/
theorem mono (h : LiveIn s k live) (hp : t.heapPtr = s.heapPtr)
    (hb : ∀ b ∈ s.usedBlocks k, s.heapPtr + b + 12 ∈ live.map Prod.fst →
      b ∈ t.usedBlocks k' ∧ t.get .next b = s.get .next b) : LiveIn t k' live := by
  refine ⟨h.nodup, fun x hx => ?_⟩
  obtain ⟨hpos, b, hbk, hxb, hr⟩ := h.block x hx
  obtain ⟨hbt, hn⟩ := hb b hbk (hxb ▸ List.mem_map_of_mem hx)
  exact ⟨hpos, b, hbt, hp ▸ hxb, hn ▸ hr⟩

theorem cons (h : LiveIn s k live) (hn : 0 < n) (hb : b ∈ s.usedBlocks k)
    (hp : p = s.heapPtr + b + 12) (hr : b + 12 + n ≤ s.get .next b)
    (hnew : p ∉ live.map Prod.fst) : LiveIn s k ((p, n) :: live) := by
  refine ⟨List.nodup_cons.mpr ⟨hnew, h.nodup⟩, fun x hx => ?_⟩
  rcases List.mem_cons.mp hx with rfl | hx
  · exact ⟨hn, b, hb, hp, hr⟩
  · exact h.block x hx

theorem drop (h : LiveIn s k live) (p : Nat) : LiveIn s k (live.filter fun x => x.1 ≠ p) := by
  refine ⟨?_, fun x hx => h.block x (List.mem_of_mem_filter hx)⟩
  exact (List.filter_sublist.map Prod.fst).nodup h.nodup

theorem notMem_drop : p ∉ (live.filter fun x => x.1 ≠ p).map Prod.fst := by
  intro h
  obtain ⟨x, hx, hxp⟩ := List.mem_map.mp h
  have := (List.mem_filter.mp hx).2
  simp [hxp] at this

/-- No area is at `NULL`. -/
theorem drop_zero (h : LiveIn s k live) : live.filter (fun x => x.1 ≠ 0) = live := by
  refine List.filter_eq_self.mpr fun x hx => ?_
  obtain ⟨-, b, -, hxb, -⟩ := h.block x hx
  simp only [ne_eq, decide_not, Bool.not_eq_eq_eq_not, Bool.not_true, decide_eq_false_iff_not]
  omega

/-- The area of a block that was not used. -/
theorem took (h : LiveIn s k live) (hT : Took s k t k' b) (hn : 0 < n) (hp : p = t.heapPtr + b + 12)
    (hr : b + 12 + n ≤ t.get .next b) : LiveIn t k' ((p, n) :: live) := by
  have hm : LiveIn t k' live := h.mono hT.ptr fun c hc _ =>
    ⟨hT.used.symm ▸ Finset.mem_insert_of_mem hc, hT.next c hc⟩
  refine hm.cons hn (hT.used.symm ▸ Finset.mem_insert_self _ _) hp hr fun hmem => ?_
  obtain ⟨x, hx, hxp⟩ := List.mem_map.mp hmem
  obtain ⟨-, c, hc, hxc, -⟩ := h.block x hx
  have hcb : c = b := by
    have := hT.ptr
    omega
  exact hT.unused (hcb ▸ hc)

/-- The other areas are in other blocks. -/
theorem ne_of_drop (hp : p = s.heapPtr + b + 12) {c : Nat}
    (hc : s.heapPtr + c + 12 ∈ (live.filter fun x => x.1 ≠ p).map Prod.fst) : c ≠ b := by
  rintro rfl
  exact notMem_drop (hp.symm ▸ hc)

theorem freed (h : LiveIn s k live) (hF : Freed s k t k' b) (hp : p = s.heapPtr + b + 12) :
    LiveIn t k' (live.filter fun x => x.1 ≠ p) := by
  refine (h.drop p).mono hF.ptr fun c hc hmem => ?_
  have hcb := ne_of_drop hp hmem
  exact ⟨hF.used.symm ▸ Finset.mem_erase.mpr ⟨hcb, hc⟩, hF.next c hc hcb⟩

theorem resized (h : LiveIn s k live) {size : Nat} (hR : Resized s k t k' b size)
    (hb : b ∈ s.usedBlocks k) (hp : p = s.heapPtr + b + 12) (hn : 0 < n) (hle : n ≤ size) :
    LiveIn t k' ((p, n) :: live.filter fun x => x.1 ≠ p) := by
  have hm : LiveIn t k' (live.filter fun x => x.1 ≠ p) :=
    (h.drop p).mono hR.ptr fun c hc hmem =>
      ⟨hR.used.symm ▸ hc, hR.next c hc (ne_of_drop hp hmem)⟩
  have hr := hR.room
  exact hm.cons hn (hR.used.symm ▸ hb) (hR.ptr.symm ▸ hp) (by omega) notMem_drop

theorem moved (h : LiveIn s k live) {size b' q : Nat} (hM : Moved s k t k' b b' size)
    (hp : p = s.heapPtr + b + 12) (hq : q = t.heapPtr + b' + 12) (hn : 0 < n) (hle : n ≤ size) :
    LiveIn t k' ((q, n) :: live.filter fun x => x.1 ≠ p) := by
  have hm : LiveIn t k' (live.filter fun x => x.1 ≠ p) :=
    (h.drop p).mono hM.ptr fun c hc hmem => by
      have hcb := ne_of_drop hp hmem
      exact ⟨hM.used.symm ▸ Finset.mem_insert_of_mem (Finset.mem_erase.mpr ⟨hcb, hc⟩),
        hM.next c hc hcb⟩
  have hr := hM.room
  refine hm.cons hn (hM.used.symm ▸ Finset.mem_insert_self _ _) hq (by omega) fun hmem => ?_
  obtain ⟨x, hx, hxq⟩ := List.mem_map.mp hmem
  obtain ⟨-, c, hc, hxc, -⟩ := (h.drop p).block x hx
  have hcb : c = b' := by
    have := hM.ptr
    omega
  exact hM.unused (hcb ▸ hc)

end LiveIn

/-! ## Steps -/

namespace Sys

def Inv (s : Sys) : Prop := ∃ k, Heap.Inv s.heap k ∧ LiveIn s.heap k s.live

/-- No size that is asked for wraps around. -/
def SizeOk : Act → Prop
  | .malloc size => size ≤ 2 ^ 32 - 4
  | .calloc count size => count * size ≤ 2 ^ 32 - 4
  | .realloc p newsize => p = 0 ∧ newsize < 2 ^ 32 ∨ newsize ≤ 2 ^ 32 - 4
  | .free _ => True
  | .write _ _ => True

instance (a : Act) : Decidable (SizeOk a) := by
  unfold SizeOk
  split <;> infer_instance

variable {x y : Sys}

/-- The areas with the one that `rt_malloc` returned. -/
theorem inv_malloc (hI : Heap.Inv s k) (hL : LiveIn s k live) (h : s.rtMalloc n = some (t, p))
    {size : Nat} (hs : size ≤ rtAlign n) (h0 : p ≠ 0 → 0 < size) : Inv (give live (t, p) size) := by
  rcases rtMalloc_spec hI h with ⟨rfl, rfl⟩ | ⟨k', b, hI', hT, hp, hr⟩
  · exact ⟨k, hI, hL⟩
  · have hp0 : p ≠ 0 := by omega
    have hroom : b + 12 + size ≤ t.get .next b := by omega
    refine ⟨k', hI', ?_⟩
    unfold give
    rw [if_neg hp0]
    exact hL.took hT (h0 hp0) hp hroom

theorem rtMalloc_zero (h : s.rtMalloc 0 = some (t, p)) : p = 0 := by
  unfold rtMalloc at h
  rw [if_pos rfl] at h
  exact (Prod.mk.inj (Option.some.inj h)).2.symm

theorem inv_write {a : Nat} {v : UInt8} (hI : Heap.Inv s k) (hL : LiveIn s k live)
    (ha : ∃ x ∈ live, x.1 ≤ a ∧ a < x.1 + x.2) :
    Inv ⟨{ s with mem := Function.update s.mem a v }, live⟩ := by
  obtain ⟨x, hx, h1, h2⟩ := ha
  obtain ⟨-, b, hb, hxb, hr⟩ := hL.block x hx
  have hbk := (mem_usedBlocks.mp hb).1
  have hS : Same s { s with mem := Function.update s.mem a v } k := by
    apply Same.of_mem
    intro c hc a' ha1 ha2
    apply Function.update_of_ne
    have := area_apart hI.blocks hbk (a := a) (by omega) (by omega) hc
    omega
  refine ⟨k, hS.inv rfl rfl hI, hL.mono rfl fun c hc _ => ⟨hS.used.symm ▸ hc, ?_⟩⟩
  exact hS.get c (mem_usedBlocks.mp hc).1 .next

theorem inv_calloc {count size : Nat} (hI : Heap.Inv s k) (hL : LiveIn s k live)
    (hn : count * size ≤ 2 ^ 32 - 4) {r : Heap × Nat} (h : s.rtCalloc count size = some r) :
    Inv (give live r (count * size)) := by
  have hmod : count * size % 2 ^ 32 = count * size := Nat.mod_eq_of_lt (by omega)
  unfold rtCalloc at h
  rw [hmod] at h
  obtain ⟨⟨t, p⟩, hm, rfl⟩ := Option.map_eq_some_iff.mp h
  have hle := (rtAlign_spec hn).2.1
  by_cases hp0 : p = 0
  · subst hp0
    exact inv_malloc hI hL hm hle fun h => absurd rfl h
  · have hpos : 0 < count * size := by
      refine Nat.pos_of_ne_zero fun hz => hp0 ?_
      rw [hz] at hm
      exact rtMalloc_zero hm
    rcases rtMalloc_spec hI hm with ⟨h, -⟩ | ⟨k', b, hI', hT, hp, hr⟩
    · exact absurd h hp0
    · have hbk : b ∈ k' := (mem_usedBlocks.mp (hT.used.symm ▸ Finset.mem_insert_self _ _)).1
      -- the zeros stay in the new area
      have hS : Same t { t with mem := Bytes.fill t.mem p (count * size) 0 } k' := by
        apply Same.of_mem
        intro c hc a ha1 ha2
        apply if_neg
        rintro ⟨h1, h2⟩
        have := area_apart hI'.blocks hbk (a := a) (by omega) (by omega) hc
        omega
      have hL' := hL.took hT hpos hp (by omega)
      refine ⟨k', ?_, ?_⟩
      · simp only [give, if_neg hp0]
        exact hS.inv rfl rfl hI'
      · simp only [give, if_neg hp0]
        exact hL'.mono rfl fun c hc _ =>
          ⟨hS.used.symm ▸ hc, hS.get c (mem_usedBlocks.mp hc).1 .next⟩

theorem inv_realloc {r : Heap × Nat} (hI : Heap.Inv x.heap k) (hL : LiveIn x.heap k x.live)
    (hp : x.MayFree p) (hn : p = 0 ∧ n < 2 ^ 32 ∨ n ≤ 2 ^ 32 - 4) (h : x.heap.rtRealloc p n = some r) :
    Inv (give (if r.2 = 0 ∧ n ≠ 0 then x.live else x.drop p) r n) := by
  obtain ⟨t, q⟩ := r
  rcases hp with rfl | hmem
  · -- `rt_malloc`, or nothing
    have hd : x.drop 0 = x.live := hL.drop_zero
    rw [hd, ite_self]
    simp only [rtRealloc] at h
    split at h
    · obtain ⟨rfl, rfl⟩ := Prod.mk.inj (Option.some.inj h)
      exact ⟨k, hI, hL⟩
    · split at h
      · have hf : x.heap.rtFree 0 = some x.heap := if_pos rfl
        rw [hf] at h
        obtain ⟨rfl, rfl⟩ := Prod.mk.inj (Option.some.inj h)
        exact ⟨k, hI, hL⟩
      · rename_i hz
        rw [if_pos trivial] at h
        -- a size that wraps around is rounded to 0
        have hle : n ≤ 2 ^ 32 - 4 := by
          unfold rtAlign at hz
          omega
        refine inv_malloc hI hL h ?_ fun _ => ?_
        · rw [rtAlign_rtAlign]
          exact (rtAlign_spec hle).2.1
        · refine Nat.pos_of_ne_zero fun h0 => hz ?_
          rw [h0]
          rfl
  · obtain ⟨y, hy, rfl⟩ := List.mem_map.mp hmem
    obtain ⟨hpos, b, hb, hpb, hr⟩ := hL.block y hy
    have hp0 : y.1 ≠ 0 := by omega
    obtain ⟨-, hle, -, -⟩ := rtAlign_spec (hn.resolve_left fun h => hp0 h.1)
    have hn0 : rtAlign n ≠ 0 → n ≠ 0 := fun hz h0 => hz (by rw [h0]; rfl)
    rcases rtRealloc_spec hI hb (by omega) hpb h with ⟨rfl, rfl, hz⟩ | ⟨rfl, hz, k', hI', hF⟩ |
      ⟨rfl, hz, k', hI', hR⟩ | ⟨hq0, hz, k', b', hI', hM, hq⟩
    · rw [if_pos ⟨rfl, hn0 hz⟩]
      exact ⟨k, hI, hL⟩
    · rw [if_neg fun h => h.2 (by omega)]
      exact ⟨k', hI', hL.freed hF hpb⟩
    · rw [if_neg fun h => hp0 h.1]
      refine ⟨k', hI', ?_⟩
      unfold give
      rw [if_neg hp0]
      exact hL.resized hR hb hpb (Nat.pos_of_ne_zero (hn0 hz)) hle
    · rw [if_neg fun h => hq0 h.1]
      refine ⟨k', hI', ?_⟩
      unfold give
      rw [if_neg hq0]
      exact hL.moved hM hpb hq (Nat.pos_of_ne_zero (hn0 hz)) hle

theorem step_inv {a : Act} (hI : x.Inv) (ha : SizeOk a) (h : x.step a = some y) : y.Inv := by
  obtain ⟨k, hI, hL⟩ := hI
  cases a with
  | malloc size =>
    obtain ⟨⟨t, p⟩, hm, rfl⟩ := Option.map_eq_some_iff.mp h
    refine inv_malloc hI hL hm (rtAlign_spec ha).2.1 fun hp0 => ?_
    refine Nat.pos_of_ne_zero fun hz => hp0 ?_
    rw [hz] at hm
    exact rtMalloc_zero hm
  | calloc count size =>
    obtain ⟨r, hm, rfl⟩ := Option.map_eq_some_iff.mp h
    exact inv_calloc hI hL ha hm
  | realloc p newsize =>
    simp only [step] at h
    split at h
    · rename_i hp
      obtain ⟨r, hm, rfl⟩ := Option.map_eq_some_iff.mp h
      exact inv_realloc hI hL hp ha hm
    · cases h
  | free p =>
    simp only [step] at h
    split at h
    · rename_i hp
      obtain ⟨t, hf, rfl⟩ := Option.map_eq_some_iff.mp h
      rcases hp with rfl | hmem
      · obtain rfl := Option.some.inj ((if_pos rfl).symm.trans hf)
        have hd : x.drop 0 = x.live := hL.drop_zero
        refine ⟨k, hI, ?_⟩
        rw [hd]
        exact hL
      · obtain ⟨z, hz, rfl⟩ := List.mem_map.mp hmem
        obtain ⟨hpos, b, hb, hpb, hr⟩ := hL.block z hz
        obtain ⟨t', k', hx, hI', hF⟩ := rtFree_spec hI hb (by omega) hpb
        obtain rfl := Option.some.inj (hx.symm.trans hf)
        exact ⟨k', hI', hL.freed hF hpb⟩
    · cases h
  | write a v =>
    simp only [step] at h
    split at h
    · rename_i hw
      obtain rfl := Option.some.inj h
      exact inv_write hI hL hw
    · cases h

end Sys

/-! ## The initial heap -/

theorem heapInit_start {m : Bytes.Memory} {f : Field} (hf : n + 12 < 2 ^ 32) :
    (heapInit m p n).get f 0 = if f = .magic then heapMagic else if f = .next then n + 12 else 0 := by
  have h0 : Apart 0 0 := .inl rfl
  have he : Apart (n + 12) 0 := .inr (.inr (by omega))
  have hne : ∀ f g : Field, f ≠ g ∨ n + 12 ≠ 0 := fun _ _ => .inr (by omega)
  simp only [heapInit, sizeofStructMem]
  rw [get_set_ne he (hne _ _), get_set_ne he (hne _ _), get_set_ne he (hne _ _),
    get_set_ne he (hne _ _), get_set h0 (by decide), get_set h0 (by decide), get_set h0 hf,
    get_set h0 (by decide)]
  cases f <;> simp

theorem heapInit_end {m : Bytes.Memory} {f : Field} (hf : n + 12 < 2 ^ 32) :
    (heapInit m p n).get f (n + 12) =
      if f = .magic then heapMagic else if f = .used then 1 else n + 12 := by
  have he : Apart (n + 12) (n + 12) := .inl rfl
  simp only [heapInit, sizeofStructMem]
  rw [get_set he hf, get_set he hf, get_set he (by decide), get_set he (by decide)]
  cases f <;> simp

theorem inv_heapInit {m : Bytes.Memory} (h4 : 4 ∣ p) (h4' : 4 ∣ n) (hb : p + n + 24 < 2 ^ 32) :
    Heap.Inv (heapInit m p n) {0, n + 12} := by
  have h0 := fun f => @heapInit_start n p m f (by omega)
  have he := fun f => @heapInit_end n p m f (by omega)
  have hend : (heapInit m p n).heapEnd = n + 12 := rfl
  have hmem : ∀ b, b ∈ ({0, n + 12} : Finset Nat) ↔ b = 0 ∨ b = n + 12 := by simp
  have hn0 : (heapInit m p n).get .next 0 = n + 12 := by simp [h0]
  have hne : (heapInit m p n).get .next (n + 12) = n + 12 := by simp [he]
  have hu0 : (heapInit m p n).get .used 0 = 0 := by simp [h0]
  have hue : (heapInit m p n).get .used (n + 12) = 1 := by simp [he]
  refine ⟨?_, ?_, ?_⟩
  · constructor
    case leads =>
      rw [hend]
      constructor
      case last => simp
      case le =>
        intro b hb
        rcases (hmem b).mp hb with rfl | rfl <;> omega
      case mem =>
        intro b hb hbe
        rcases (hmem b).mp hb with rfl | rfl
        · simp [hn0]
        · exact absurd rfl hbe
      case lt =>
        intro b hb hbe
        rcases (hmem b).mp hb with rfl | rfl
        · rw [hn0]
          omega
        · exact absurd rfl hbe
      case least =>
        intro b hb c hc hbc
        rcases (hmem b).mp hb with rfl | rfl
        · rcases (hmem c).mp hc with rfl | rfl <;> omega
        · rcases (hmem c).mp hc with rfl | rfl <;> omega
    case start => simp
    case gap =>
      intro b hb hbe
      rcases (hmem b).mp hb with rfl | rfl
      · rw [hn0]
        omega
      · exact absurd rfl hbe
    case align =>
      intro b hb
      rcases (hmem b).mp hb with rfl | rfl <;> omega
    case prev =>
      intro b hb hbe hn
      rcases (hmem b).mp hb with rfl | rfl
      · exact absurd hn0 hn
      · exact absurd rfl hbe
    case startPrev => simp [h0]
    case hole =>
      intro b hb hu hn
      rcases (hmem b).mp hb with rfl | rfl
      · exact .inr hn0
      · exact .inl rfl
    case magic =>
      intro b hb
      rcases (hmem b).mp hb with rfl | rfl
      · simp [h0]
      · simp [he]
    case endUsed => exact hue
    case endNext => exact hne
    case size => rfl
    case bound =>
      show p + (n + 12) + 12 < 2 ^ 32
      omega
    case ptr => exact h4
  · refine ⟨fun b _ _ => Nat.zero_le b, by simp [heapInit], .inr hu0⟩
  · have hused : (heapInit m p n).usedBlocks {0, n + 12} = {n + 12} := by
      ext b
      rw [mem_usedBlocks, hmem, Finset.mem_singleton]
      constructor
      · rintro ⟨rfl | rfl, hu⟩
        · exact absurd hu0 hu
        · rfl
      · rintro rfl
        exact ⟨.inr rfl, by rw [hue]; decide⟩
    unfold usedSum
    rw [hused, Finset.sum_singleton, hne, Nat.sub_self]
    rfl

/-- Every region that is accepted. -/
theorem inv_init {m : Bytes.Memory} {beginAddr endAddr : Nat} (he : endAddr < 2 ^ 32)
    (h : rtSystemHeapInit m beginAddr endAddr = some s) : Sys.Inv ⟨s, []⟩ := by
  unfold rtSystemHeapInit at h
  split at h
  · rename_i hc
    obtain rfl := Option.some.inj h
    have h4b := four_dvd_rtAlign beginAddr
    have h4e : 4 ∣ rtAlignDown endAddr := Nat.dvd_mul_left 4 _
    have hele : rtAlignDown endAddr ≤ endAddr := Nat.div_mul_le_self endAddr 4
    unfold sizeofStructMem at *
    exact ⟨_, inv_heapInit h4b (by omega) (by omega), List.nodup_nil, by simp⟩
  · cases h

/-! ## Heap integrity -/

/-- The blocks `l` before `heap_end`, and the program's areas. -/
structure HeapOk (x : Sys) (l : List Nat) : Prop where
  start : l.head? = some 0
  chain : List.IsChain (fun b c => x.heap.get .next b = c ∧ b < c) (l ++ [x.heap.heapEnd])
  aligned : ∀ b ∈ l ++ [x.heap.heapEnd], (x.heap.heapPtr + b) % 4 = 0
  prev : x.heap.get .prev 0 = 0 ∧ List.IsChain (fun b c => x.heap.get .prev c = b) l
  holes : List.IsChain (fun b c => ¬ (x.heap.get .used b = 0 ∧ x.heap.get .used c = 0)) l
  lfree : (x.heap.lfree ∈ l ∧ x.heap.get .used x.heap.lfree = 0 ∧
      ∀ b ∈ l, x.heap.get .used b = 0 → x.heap.lfree ≤ b) ∨
    x.heap.lfree = x.heap.heapEnd ∧ ∀ b ∈ l, x.heap.get .used b ≠ 0
  usedMem : x.heap.usedMem =
    (l.map fun b => if x.heap.get .used b = 0 then 0 else x.heap.get .next b - b).sum
  inside : ∀ a ∈ x.live, x.heap.heapPtr ≤ a.1 ∧ a.1 + a.2 ≤ x.heap.heapPtr + x.heap.heapEnd
  disjoint : x.live.Pairwise fun a b => a.1 + a.2 ≤ b.1 ∨ b.1 + b.2 ≤ a.1

/-- Areas in different blocks. -/
theorem LiveIn.disjoint {x : Nat} (hB : Blocks s x k) (h : LiveIn s k live) :
    live.Pairwise fun a b => a.1 + a.2 ≤ b.1 ∨ b.1 + b.2 ≤ a.1 := by
  have hne : live.Pairwise fun a b => a.1 ≠ b.1 := List.pairwise_map.mp h.nodup
  refine hne.imp_of_mem fun {a b} ha hb hab => ?_
  obtain ⟨-, c, hc, hac, hra⟩ := h.block a ha
  obtain ⟨-, d, hd, hbd, hrb⟩ := h.block b hb
  have hck := (mem_usedBlocks.mp hc).1
  have hdk := (mem_usedBlocks.mp hd).1
  rcases Nat.lt_trichotomy c d with hlt | heq | hlt
  · have := hB.leads.least c hck d hdk hlt
    exact .inl (by omega)
  · exact absurd (by omega) hab
  · have := hB.leads.least d hdk c hck hlt
    exact .inr (by omega)

theorem Sys.Inv.ok {x : Sys} (h : x.Inv) : ∃ l, HeapOk x l := by
  obtain ⟨k, hI, hL⟩ := h
  have hB := hI.blocks
  obtain ⟨l, hc, hs, hm⟩ := hB.leads.chain
  have hl : ∀ b ∈ l, b ∈ k := fun b hb => (hm b).mp (List.mem_append_left _ hb)
  have hle : ∀ b ∈ l, b ≠ x.heap.heapEnd := fun b hb =>
    ((List.pairwise_append.mp hs).2.2 b hb _ (List.mem_singleton_self _)).ne
  have hkl : ∀ b ∈ k, b ≠ x.heap.heapEnd → b ∈ l := fun b hb hbe => by
    rcases List.mem_append.mp ((hm b).mpr hb) with h | h
    · exact h
    · exact absurd (List.mem_singleton.mp h) hbe
  have hcl : List.IsChain (fun b c => x.heap.get .next b = c) l :=
    (List.isChain_append.mp hc).1.imp fun _ _ h => h.1
  refine ⟨l, ?_, hc, fun b hb => ?_, ⟨hB.startPrev, ?_⟩, ?_, ?_, ?_, fun a ha => ?_, hL.disjoint hB⟩
  · -- the offset 0 is the least
    have h0 : 0 ∈ l := hkl 0 hB.start (by rw [hB.size]; omega)
    cases l with
    | nil => cases h0
    | cons a l =>
      rcases List.mem_cons.mp h0 with h | h
      · rw [List.head?_cons, h]
      · exact absurd ((List.pairwise_cons.mp hs).1 0 (by simp [h])) (Nat.not_lt_zero a)
  · have h1 := hB.align b ((hm b).mp hb)
    have h2 := hB.ptr
    omega
  · refine hcl.imp_of_mem_imp fun b c hb hc hbc => ?_
    have hp := hB.prev b (hl b hb) (hle b hb) (hbc ▸ hle c hc)
    rw [hbc] at hp
    exact hp
  · refine hcl.imp_of_mem_imp fun b c hb hc hbc => ?_
    rintro ⟨hbu, hcu⟩
    exact hB.next_used (hl b hb) hbu (hbc ▸ hcu)
  · rcases hI.low.unused with he | hu
    · refine .inr ⟨he, fun b hb hbu => ?_⟩
      have h1 := hI.low.le b (hl b hb) hbu
      have h2 := hB.leads.le b (hl b hb)
      exact hle b hb (by omega)
    · exact .inl ⟨hkl _ hI.low.mem (hB.ne_end hu), hu, fun b hb => hI.low.le b (hl b hb)⟩
  · have hk : k = (l ++ [x.heap.heapEnd]).toFinset := by
      ext b
      rw [List.mem_toFinset, hm]
    have hw : x.heap.usedSum k =
        ∑ b ∈ k, if x.heap.get .used b ≠ 0 then x.heap.get .next b - b else 0 :=
      Finset.sum_filter _ _
    rw [hI.usedMem, hw, hk, List.sum_toFinset _ (hs.imp fun h => h.ne), List.map_append,
      List.sum_append]
    simp [hB.endUsed, hB.endNext]
  · obtain ⟨-, b, hb, hab, hr⟩ := hL.block a ha
    have := hB.leads.le _ (hB.next_mem (mem_usedBlocks.mp hb).1)
    omega

open Sys

/-- What holds in every run whose sizes do not wrap around. -/
theorem exec_inv {m : Bytes.Memory} {beginAddr endAddr : Nat} (he : endAddr < 2 ^ 32)
    (hi : rtSystemHeapInit m beginAddr endAddr = some s) {as : List Act}
    (ha : ∀ a ∈ as, SizeOk a) {x : Sys} (hx : exec step ⟨s, []⟩ as = some x) : x.Inv := by
  have hA : Along step (fun _ a => SizeOk a) ⟨s, []⟩ as := along_of_forall fun _ => ha
  exact hA.inv (fun _ _ _ hI hC hs => step_inv hI hC hs) hx (inv_init he hi)

/-- The heap's integrity in every run whose sizes do not wrap around. -/
theorem heap_integrity {m : Bytes.Memory} {beginAddr endAddr : Nat} (he : endAddr < 2 ^ 32)
    (hi : rtSystemHeapInit m beginAddr endAddr = some s) {as : List Act} (ha : ∀ a ∈ as, SizeOk a)
    {x : Sys} (hx : exec step ⟨s, []⟩ as = some x) : ∃ l, HeapOk x l :=
  (exec_inv he hi ha hx).ok

/-- A heap of 258 bytes, with areas that are allocated, resized, moved and freed. -/
def sample : List Act :=
  [.malloc 5, .malloc 100, .calloc 3 7, .realloc 0x1028 4, .write 0x1012 7, .realloc 0x1010 30,
    .realloc 0 9, .free 0x1028]

theorem exec_sample : ∃ s x, rtSystemHeapInit (fun _ => 0) 0x1001 0x1103 = some s ∧
    exec step ⟨s, []⟩ sample = some x ∧ x.live = [(0x1010, 9), (0x1038, 30), (0x1098, 21)] := by
  have hi : (rtSystemHeapInit (fun _ => 0) 0x1001 0x1103).isSome = true := by decide +kernel
  obtain ⟨s, hs⟩ := Option.isSome_iff_exists.mp hi
  have hrun : ((rtSystemHeapInit (fun _ => 0) 0x1001 0x1103).bind fun s =>
      exec step ⟨s, []⟩ sample).map Sys.live = some [(0x1010, 9), (0x1038, 30), (0x1098, 21)] := by
    decide +kernel
  rw [hs, Option.bind_some] at hrun
  obtain ⟨x, hx, hlive⟩ := Option.map_eq_some_iff.mp hrun
  exact ⟨s, x, hs, hx, hlive⟩

theorem heap_integrity_sample : ∃ s x, rtSystemHeapInit (fun _ => 0) 0x1001 0x1103 = some s ∧
    exec step ⟨s, []⟩ sample = some x ∧ x.live ≠ [] ∧ ∃ l, HeapOk x l := by
  obtain ⟨s, x, hs, hx, hlive⟩ := exec_sample
  refine ⟨s, x, hs, hx, ?_, heap_integrity (by decide) hs (by decide) hx⟩
  rw [hlive]
  decide

/-- `RT_ALIGN` makes 0 of the size 2^32 - 1: the area of 12 bytes that is returned does not hold
it. -/
theorem malloc_wraps : ¬ ∀ (m : Bytes.Memory) (beginAddr endAddr : Nat) (s : Heap),
    beginAddr < 2 ^ 32 → endAddr < 2 ^ 32 → rtSystemHeapInit m beginAddr endAddr = some s →
    ∀ (as : List Act) (x : Sys), exec step ⟨s, []⟩ as = some x → ∃ l, HeapOk x l := by
  intro h
  have hi : (rtSystemHeapInit (fun _ => 0) 0x1000 0x2000).isSome = true := by decide +kernel
  obtain ⟨s, hs⟩ := Option.isSome_iff_exists.mp hi
  have hrun : ((rtSystemHeapInit (fun _ => 0) 0x1000 0x2000).bind fun s =>
      exec step ⟨s, []⟩ [.malloc 0xFFFFFFFF]).map
        (fun x => (x.live, x.heap.heapPtr, x.heap.heapEnd)) =
      some ([(0x100c, 0xFFFFFFFF)], 0x1000, 0xff4) := by decide +kernel
  rw [hs, Option.bind_some] at hrun
  obtain ⟨x, hx, hobs⟩ := Option.map_eq_some_iff.mp hrun
  obtain ⟨l, hok⟩ := h _ _ _ s (by decide) (by decide) hs _ x hx
  have hlive : x.live = [(0x100c, 0xFFFFFFFF)] := congrArg Prod.fst hobs
  have hptr : x.heap.heapPtr = 0x1000 := congrArg (fun o => o.2.1) hobs
  have hend : x.heap.heapEnd = 0xff4 := congrArg (fun o => o.2.2) hobs
  have hin := hok.inside (0x100c, 0xFFFFFFFF) (by simp [hlive])
  omega

end Tudu.Mem
