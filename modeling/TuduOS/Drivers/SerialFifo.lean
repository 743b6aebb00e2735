import TuduOS.Drivers.Serial
import TuduOS.Lib.Simulate

/-!
# The receive fifo keeps the newest bytes

* `Holds x k`: the fifo `x` has `k` bytes; `recvedLen_eq`: it reports as many.
* `intRx_holds`, `readRound_holds`, `getIndex_holds`, `putIndex_holds`: the indices after each step.
* `Agrees`: a device and its view; `agrees_step`: they take every narrow step alike.
* `keeps_of_narrow`: with narrow indices no run loses a byte but the oldest of too many.
-/

namespace Tudu.Serial

open Lts Newest

/-! ## The indices -/

/-- There are `k` bytes from `get_index` on. -/
structure Holds (bufsz : Nat) (x : RxFifo) (k : Nat) : Prop where
  get_lt : x.getIndex < bufsz
  le : k ≤ bufsz
  put : x.putIndex = (x.getIndex + k) % bufsz
  not_full : k = 0 → x.isFull = false
  full : k = bufsz → x.isFull = true

section Fifo

variable {bufsz k n : Nat} {x : RxFifo} {ch : UInt8}

theorem Holds.put_lt (h : Holds bufsz x k) : x.putIndex < bufsz := by
  rw [h.put]
  exact Nat.mod_lt _ (by have := h.get_lt; omega)

theorem Holds.wrap (h : Holds bufsz x k) :
    x.putIndex = if x.getIndex + k < bufsz then x.getIndex + k else x.getIndex + k - bufsz := by
  have hg := h.get_lt
  have hl := h.le
  rw [h.put, Ring.mod_wrap (by omega)]

theorem recvedLen_eq (h : Holds bufsz x k) : recvedLen bufsz x = k := by
  have hp := h.wrap
  have hg := h.get_lt
  have hl := h.le
  unfold recvedLen
  split
  · next he =>
    -- the indices are equal in an empty and in a full fifo
    have hk : k = 0 ∨ k = bufsz := by
      rw [he] at hp
      split at hp <;> omega
    rcases hk with h0 | hb
    · rw [h.not_full h0, h0]
      rfl
    · rw [h.full hb, hb]
      rfl
  · next hne =>
    have hk : k ≠ bufsz := by
      intro hb
      rw [hb, if_neg (by omega)] at hp
      omega
    split at hp <;> split <;> omega

theorem reported_eq (h : Holds bufsz x k) :
    reported bufsz x = Ring.contents x.buffer bufsz x.getIndex k := by
  unfold reported
  rw [recvedLen_eq h]

/-- The next index, in 16 bits. -/
theorem u16_succ {i : Nat} (hb : bufsz ≤ 65535) (hi : i < bufsz) :
    (if u16 (i + 1) ≥ bufsz then 0 else u16 (i + 1)) = (i + 1) % bufsz := by
  have hu : u16 (i + 1) = i + 1 := Nat.mod_eq_of_lt (by omega)
  rw [hu, Ring.wrap_succ hi]

/-- An index after a jump, in 16 bits. -/
theorem u16_jump {i : Nat} (hi : i < 65536) :
    (if u16 i ≥ bufsz then u16 i % bufsz else u16 i) = i % bufsz := by
  have hu : u16 i = i := Nat.mod_eq_of_lt hi
  rw [hu]
  split
  · rfl
  · rw [Nat.mod_eq_of_lt (by omega)]

/-- A byte comes by interrupt. -/
theorem intRx_holds (ch : UInt8) (hs : 1 < bufsz) (hb : bufsz ≤ 65535) (h : Holds bufsz x k)
    (hk : k < bufsz) :
    Holds bufsz (intRx bufsz x ch) (min (k + 1) (bufsz - 1)) ∧
      (intRx bufsz x ch).getIndex = (x.getIndex + (k + 2 - bufsz)) % bufsz ∧
      (intRx bufsz x ch).buffer = Function.update x.buffer ((x.getIndex + k) % bufsz) ch := by
  have hg := h.get_lt
  have hsucc : (x.putIndex + 1) % bufsz = (x.getIndex + (k + 1)) % bufsz := by
    rw [h.put, Nat.mod_add_mod, Nat.add_assoc]
  unfold intRx
  simp only [u16_succ hb h.put_lt, u16_succ hb hg]
  rw [← h.put, hsucc]
  split
  · next he =>
    have hlast : k + 1 = bufsz := by
      rw [Ring.mod_wrap (by omega)] at he
      split at he <;> omega
    have hd : k + 2 - bufsz = 1 := by omega
    have hm : min (k + 1) (bufsz - 1) = bufsz - 1 := by omega
    refine ⟨⟨Nat.mod_lt _ (by omega), by omega, ?_, ?_, fun _ => rfl⟩, by rw [hd], rfl⟩
    · show (x.getIndex + (k + 1)) % bufsz = ((x.getIndex + 1) % bufsz + _) % bufsz
      rw [hm, Nat.mod_add_mod, hlast]
      congr 1
      omega
    · intro h0
      omega
  · next hne =>
    have hroom : k + 1 < bufsz := by
      by_contra hc
      have hlast : k + 1 = bufsz := by omega
      rw [hlast, Nat.add_mod_right, Nat.mod_eq_of_lt hg] at hne
      exact hne rfl
    have hd : k + 2 - bufsz = 0 := by omega
    have hm : min (k + 1) (bufsz - 1) = k + 1 := by omega
    refine ⟨⟨hg, by omega, ?_, ?_, ?_⟩, ?_, rfl⟩
    · rw [hm]
    · intro h0
      omega
    · intro hfull
      omega
    · show x.getIndex = _
      rw [hd, Nat.add_zero, Nat.mod_eq_of_lt hg]

theorem readRound_none (h : Holds bufsz x 0) : readRound bufsz x = none := by
  have hp := h.put
  rw [Nat.add_zero, Nat.mod_eq_of_lt h.get_lt] at hp
  unfold readRound
  rw [if_pos ⟨hp.symm, h.not_full rfl⟩]

/-- The first byte goes. -/
theorem readRound_holds (hb : bufsz ≤ 65535) (h : Holds bufsz x (k + 1)) (hk : k + 1 < bufsz) :
    readRound bufsz x = some (x.buffer x.getIndex,
        { x with getIndex := (x.getIndex + 1) % bufsz, isFull := false }) ∧
      Holds bufsz { x with getIndex := (x.getIndex + 1) % bufsz, isFull := false } k := by
  have hg := h.get_lt
  have hne : x.getIndex ≠ x.putIndex := by
    rw [h.wrap]
    split <;> omega
  constructor
  · unfold readRound
    rw [if_neg fun hc => hne hc.1]
    simp only [u16_succ hb hg]
  · refine ⟨Nat.mod_lt _ (by omega), by omega, ?_, fun _ => rfl, ?_⟩
    · show x.putIndex = ((x.getIndex + 1) % bufsz + k) % bufsz
      rw [h.put, Nat.mod_add_mod, Nat.add_assoc, Nat.add_comm 1 k]
    · intro hfull
      omega

/-- `n` bytes go. -/
theorem getIndex_holds (h : Holds bufsz x k) (hfull : x.isFull = true → k = bufsz) (hn : n ≤ k)
    (hnarrow : x.getIndex + n < 65536) :
    Holds bufsz (updateGetIndex bufsz x n) (k - n) ∧
      ((updateGetIndex bufsz x n).isFull = true → k - n = bufsz) ∧
      (updateGetIndex bufsz x n).getIndex = (x.getIndex + n) % bufsz := by
  have hg := h.get_lt
  have hl := h.le
  unfold updateGetIndex
  simp only [u16_jump hnarrow]
  have hflag : (if x.isFull = true ∧ n ≠ 0 then false else x.isFull) = true ↔
      x.isFull = true ∧ n = 0 := by
    split
    · next hc => exact ⟨fun hf => absurd hf (by decide), fun hf => absurd hf.2 hc.2⟩
    · next hc =>
      constructor
      · intro hf
        exact ⟨hf, by_contra fun h0 => hc ⟨hf, h0⟩⟩
      · exact fun hf => hf.1
  refine ⟨⟨Nat.mod_lt _ (by omega), by omega, ?_, ?_, ?_⟩, ?_, trivial⟩
  · show x.putIndex = ((x.getIndex + n) % bufsz + (k - n)) % bufsz
    rw [h.put, Nat.mod_add_mod]
    congr 1
    omega
  · intro h0
    refine Bool.eq_false_iff.mpr fun hf => ?_
    obtain ⟨hx, hn0⟩ := hflag.mp hf
    have := hfull hx
    omega
  · intro hfull'
    exact hflag.mpr ⟨h.full (by omega), by omega⟩
  · intro hf
    obtain ⟨hx, hn0⟩ := hflag.mp hf
    have := hfull hx
    omega

theorem updatePutIndex_buffer : (updatePutIndex bufsz x n).buffer = x.buffer := by
  unfold updatePutIndex
  dsimp only
  split_ifs <;> rfl

/-- Once the flag says whether the bytes fill the fifo, the first ones left are behind the last. -/
theorem overwrite_holds {y : RxFifo} (h : Holds bufsz x k)
    (hyp : y.putIndex = (x.putIndex + n) % bufsz) (hyg : y.getIndex = x.getIndex)
    (hyf : y.isFull = true ↔ bufsz ≤ k + n) (h1 : 1 ≤ n) :
    Holds bufsz (if y.isFull then { y with getIndex := y.putIndex } else y) (min (k + n) bufsz) ∧
      ((if y.isFull then { y with getIndex := y.putIndex } else y).isFull = true →
        min (k + n) bufsz = bufsz) ∧
      (if y.isFull then { y with getIndex := y.putIndex } else y).getIndex =
        (x.getIndex + (k + n - bufsz)) % bufsz := by
  have hg := h.get_lt
  have hput : (x.putIndex + n) % bufsz = (x.getIndex + (k + n)) % bufsz := by
    rw [h.put, Nat.mod_add_mod, Nat.add_assoc]
  split
  · next hf =>
    have hge := hyf.mp hf
    have hm : min (k + n) bufsz = bufsz := by omega
    have hd : x.getIndex + (k + n) = x.getIndex + (k + n - bufsz) + bufsz := by omega
    rw [hm]
    refine ⟨⟨?_, Nat.le_refl _, ?_, ?_, fun _ => hf⟩, fun _ => rfl, ?_⟩
    · show y.putIndex < bufsz
      rw [hyp]
      exact Nat.mod_lt _ (by omega)
    · show y.putIndex = (y.putIndex + bufsz) % bufsz
      rw [hyp, Nat.add_mod_right, Nat.mod_mod]
    · intro h0
      omega
    · show y.putIndex = _
      rw [hyp, hput, hd, Nat.add_mod_right]
  · next hf =>
    have hlt : k + n < bufsz := by
      by_contra hc
      exact hf (hyf.mpr (by omega))
    have hm : min (k + n) bufsz = k + n := by omega
    have hd : k + n - bufsz = 0 := by omega
    rw [hm]
    refine ⟨⟨?_, by omega, ?_, ?_, ?_⟩, fun hc => absurd hc hf, ?_⟩
    · rw [hyg]
      exact hg
    · rw [hyp, hyg, hput]
    · intro h0
      omega
    · intro hb
      omega
    · rw [hyg, hd, Nat.add_zero, Nat.mod_eq_of_lt hg]

/-- `n` bytes come by DMA. -/
theorem putIndex_holds (h : Holds bufsz x k) (hfull : x.isFull = true → k = bufsz) (h1 : 1 ≤ n)
    (hn : n ≤ bufsz) (hnarrow : x.putIndex + n < 65536) :
    Holds bufsz (updatePutIndex bufsz x n) (min (k + n) bufsz) ∧
      ((updatePutIndex bufsz x n).isFull = true → min (k + n) bufsz = bufsz) ∧
      (updatePutIndex bufsz x n).getIndex = (x.getIndex + (k + n - bufsz)) % bufsz := by
  have hg := h.get_lt
  have hl := h.le
  have hp := h.wrap
  have hu : u16 (x.putIndex + n) = x.putIndex + n := Nat.mod_eq_of_lt hnarrow
  have hjump : (if u16 (x.putIndex + n) ≥ bufsz then u16 (x.putIndex + n) % bufsz
      else u16 (x.putIndex + n)) = (x.putIndex + n) % bufsz := u16_jump hnarrow
  rw [hu] at hjump
  have hwrap : (x.putIndex + n) % bufsz = if x.putIndex + n < bufsz then x.putIndex + n
      else x.putIndex + n - bufsz := by
    have := h.put_lt
    rw [Ring.mod_wrap (by omega)]
  unfold updatePutIndex
  simp only [hu, hjump]
  by_cases hle : x.getIndex ≤ x.putIndex
  · rw [if_pos hle]
    refine overwrite_holds (x := x) h rfl rfl ?_ h1
    by_cases hc : x.putIndex + n ≥ bufsz ∧ (x.putIndex + n) % bufsz ≥ x.getIndex
    · show (if _ then true else x.isFull) = true ↔ _
      rw [if_pos hc]
      refine ⟨fun _ => ?_, fun _ => rfl⟩
      rw [hwrap] at hc
      split at hp <;> split at hc <;> omega
    · show (if _ then true else x.isFull) = true ↔ _
      rw [if_neg hc]
      constructor
      · intro hx
        have := hfull hx
        omega
      · intro hge
        refine h.full ?_
        by_contra hk
        rw [hwrap] at hc
        apply hc
        split at hp <;> split <;> omega
  · rw [if_neg hle]
    by_cases hc : x.putIndex + n ≥ x.getIndex
    · rw [if_pos hc]
      refine overwrite_holds (x := x) h rfl rfl ?_ h1
      refine ⟨fun _ => ?_, fun _ => rfl⟩
      split at hp <;> omega
    · rw [if_neg hc]
      refine overwrite_holds (x := x) h ?_ rfl ?_ h1
      · rw [Nat.mod_eq_of_lt (by omega)]
      · show x.isFull = true ↔ _
        constructor
        · intro hx
          have := hfull hx
          omega
        · intro hge
          split at hp <;> omega

end Fifo

/-! ## The device and its view -/

structure Agrees (bufsz : Nat) (dma : Bool) (d : Device) (v : View) : Prop where
  holds : Holds bufsz d.fifo v.unread.length
  cap : v.unread.length ≤ capacity bufsz dma
  data : Ring.contents d.fifo.buffer bufsz d.fifo.getIndex v.unread.length = v.unread
  hw : dma = true → d.hw = d.fifo.putIndex
  full : dma = true → d.fifo.isFull = true → v.unread.length = bufsz
  left : d.left = v.left
  returned : d.returned = v.returned

variable {bufsz n : Nat} {dma : Bool} {d : Device} {v : View} {bs : List UInt8} {a : Act}

theorem Agrees.view (h : Agrees bufsz dma d v) : d.view bufsz = v := by
  unfold Device.view
  rw [reported_eq h.holds, h.data, h.left, h.returned]

theorem agrees_opened (hs : 1 < bufsz) : Agrees bufsz dma .opened .opened where
  holds := {
    get_lt := Nat.zero_lt_of_lt hs
    le := Nat.zero_le _
    put := (Nat.zero_mod _).symm
    not_full := fun _ => rfl
    full := fun h => by
      have h0 : 0 = bufsz := h
      omega }
  cap := Nat.zero_le _
  data := rfl
  hw := fun _ => rfl
  full := fun _ h => by cases h
  left := rfl
  returned := rfl

/-- The bytes of an `RX_IND`, one after the other. -/
theorem Agrees.rxInd (hs : 1 < bufsz) (hb : bufsz ≤ 65535) (h : Agrees bufsz false d v) :
    Agrees bufsz false { d with fifo := bs.foldl (intRx bufsz) d.fifo }
      (v.receive (bufsz - 1) bs) := by
  induction bs generalizing d v with
  | nil =>
    have hv : v.receive (bufsz - 1) [] = v := by
      have hc : v.unread.length ≤ bufsz - 1 := h.cap
      unfold View.receive
      rw [List.append_nil, newest_of_le hc]
    rw [hv]
    exact h
  | cons b bs ih =>
    have hlt : v.unread.length < bufsz := by
      have hc : v.unread.length ≤ bufsz - 1 := h.cap
      omega
    obtain ⟨hh, hget, hbuf⟩ := intRx_holds b hs hb h.holds hlt
    have hlen : (newest (bufsz - 1) (v.unread ++ [b])).length = min (v.unread.length + 1) (bufsz - 1) := by
      simp
    have hone : Agrees bufsz false { d with fifo := intRx bufsz d.fifo b }
        (v.receive (bufsz - 1) [b]) := {
      holds := by
        show Holds bufsz _ (newest (bufsz - 1) (v.unread ++ [b])).length
        rw [hlen]
        exact hh
      cap := by
        show (newest (bufsz - 1) (v.unread ++ [b])).length ≤ bufsz - 1
        rw [hlen]
        exact Nat.min_le_right _ _
      data := by
        show Ring.contents (intRx bufsz d.fifo b).buffer bufsz (intRx bufsz d.fifo b).getIndex
          (newest (bufsz - 1) (v.unread ++ [b])).length = newest (bufsz - 1) (v.unread ++ [b])
        rw [hget, hbuf]
        exact pushBelow hs hlt h.data
      hw := fun hd => by cases hd
      full := fun hd => by cases hd
      left := h.left
      returned := h.returned }
    have hrest := ih hone
    have hv : (v.receive (bufsz - 1) [b]).receive (bufsz - 1) bs = v.receive (bufsz - 1) (b :: bs) := by
      unfold View.receive
      rw [newest_append, List.append_assoc, List.singleton_append]
    rw [hv] at hrest
    exact hrest

theorem Agrees.readRound (hb : bufsz ≤ 65535) (h : Agrees bufsz false d v) (hs : 1 < bufsz) :
    Option.Rel (Agrees bufsz false) (step bufsz false d .readRound)
      (viewStep bufsz false v .readRound) := by
  by_cases h0 : d.left = 0
  · have hv0 : v.left = 0 := h.left ▸ h0
    unfold step viewStep
    rw [if_pos (Or.inr h0), if_pos (Or.inr hv0)]
    exact .none
  · have hv0 : v.left ≠ 0 := h.left ▸ h0
    unfold step viewStep
    rw [if_neg (by simpa using h0), if_neg (by simpa using hv0)]
    obtain ⟨unread, left, returned⟩ := v
    cases unread with
    | nil =>
      rw [readRound_none h.holds, if_pos rfl]
      exact .some { h with left := rfl }
    | cons b u =>
      have hk : u.length + 1 < bufsz := by
        have hc : u.length + 1 ≤ bufsz - 1 := h.cap
        omega
      obtain ⟨hr, hh⟩ := readRound_holds hb h.holds hk
      have hd := h.data
      rw [List.length_cons, Ring.contents_pop, Nat.mod_eq_of_lt h.holds.get_lt] at hd
      obtain ⟨hfirst, hrest⟩ := List.cons.inj hd
      rw [hr, if_neg (List.cons_ne_nil b u)]
      exact .some {
        holds := hh
        cap := Nat.le_of_succ_le h.cap
        data := hrest
        hw := fun hd => by cases hd
        full := fun hd => by cases hd
        left := congrArg (· - 1) h.left
        returned := by
          show d.returned ++ [d.fifo.buffer d.fifo.getIndex] = returned ++ [b]
          rw [hfirst, h.returned] }

/-- The two `rt_memcpy`s of a read by DMA. -/
theorem dma_data {x : RxFifo} {k : Nat} (h : Holds bufsz x k) (hn : n ≤ bufsz) :
    (if x.getIndex + n < bufsz then bytes x.buffer x.getIndex n
      else bytes x.buffer x.getIndex (bufsz - x.getIndex) ++
        bytes x.buffer 0 (n + x.getIndex - bufsz)) =
      Ring.contents x.buffer bufsz x.getIndex n := by
  have hg := h.get_lt
  have hone : ∀ m, x.getIndex + m ≤ bufsz →
      bytes x.buffer x.getIndex m = Ring.contents x.buffer bufsz x.getIndex m := by
    intro m hm
    apply List.map_congr_left
    intro i hi
    have := List.mem_range.mp hi
    rw [Nat.mod_eq_of_lt (by omega)]
  split
  · exact hone n (by omega)
  · have hsum : n = bufsz - x.getIndex + (n + x.getIndex - bufsz) := by omega
    have hend : (x.getIndex + (bufsz - x.getIndex)) % bufsz = 0 := by
      rw [Nat.add_sub_cancel' (Nat.le_of_lt hg), Nat.mod_self]
    rw [hsum, Ring.contents_add, hend, ← hsum, hone _ (by omega)]
    congr 1
    apply List.map_congr_left
    intro i hi
    have := List.mem_range.mp hi
    rw [Nat.mod_eq_of_lt (by omega)]

theorem toInt_lt (hn : n < 2147483648) (k : Nat) :
    (if toInt n < (k : Int) then n else k) = min n k := by
  unfold toInt
  rw [if_pos hn]
  split <;> omega

theorem Agrees.dmaRead (h : Agrees bufsz true d v) (hn : n < 2147483648)
    (hnarrow : d.fifo.getIndex + min n (recvedLen bufsz d.fifo) < 65536) :
    Option.Rel (Agrees bufsz true) (step bufsz true d (.dmaRead n))
      (viewStep bufsz true v (.dmaRead n)) := by
  have hlen := recvedLen_eq h.holds
  have hle := h.holds.le
  rw [hlen] at hnarrow
  have hmin : min n v.unread.length ≤ v.unread.length := Nat.min_le_right _ _
  obtain ⟨hh, hfull, hget⟩ := getIndex_holds h.holds (h.full rfl) hmin hnarrow
  have hdata : Ring.contents d.fifo.buffer bufsz d.fifo.getIndex (min n v.unread.length) =
      v.unread.take n := by
    have hsum : Ring.contents d.fifo.buffer bufsz d.fifo.getIndex _ = _ ++ _ :=
      Ring.contents_add (min n v.unread.length) (v.unread.length - min n v.unread.length)
    rw [Nat.add_sub_cancel' hmin, h.data] at hsum
    have ht := congrArg (List.take (min n v.unread.length)) hsum
    rw [List.take_left' Ring.length_contents] at ht
    rw [← ht]
    exact List.take_eq_take_iff.mpr (by omega)
  have hr : dmaRx bufsz d.fifo n =
      some (v.unread.take n, updateGetIndex bufsz d.fifo (min n v.unread.length)) := by
    unfold dmaRx
    rw [hlen]
    simp only [toInt_lt hn]
    rw [if_pos hmin, dma_data h.holds (by omega), hdata]
  have hdrop : (v.unread.drop n).length = v.unread.length - min n v.unread.length := by
    rw [List.length_drop]
    omega
  show Option.Rel _ ((dmaRx bufsz d.fifo n).map _) (some (v.take n))
  rw [hr]
  exact .some {
    holds := by
      show Holds bufsz _ (v.unread.drop n).length
      rw [hdrop]
      exact hh
    cap := by
      show (v.unread.drop n).length ≤ bufsz
      rw [hdrop]
      omega
    data := by
      show Ring.contents d.fifo.buffer bufsz
        (updateGetIndex bufsz d.fifo (min n v.unread.length)).getIndex (v.unread.drop n).length =
        v.unread.drop n
      rw [hdrop, hget, ← Ring.drop_contents hmin, h.data]
      rcases Nat.le_total n v.unread.length with hl | hl
      · rw [Nat.min_eq_left hl]
      · rw [Nat.min_eq_right hl, List.drop_length, List.drop_of_length_le hl]
    hw := h.hw
    full := fun _ hf => by
      show (v.unread.drop n).length = bufsz
      rw [hdrop]
      exact hfull hf
    left := h.left
    returned := by
      show d.returned ++ v.unread.take n = v.returned ++ v.unread.take n
      rw [h.returned] }

theorem step_dmaDone (hb : 1 ≤ bs.length ∧ bs.length ≤ bufsz) :
    step bufsz true d (.dmaDone bs) = some { d with
      fifo := updatePutIndex bufsz
        { d.fifo with buffer := writeAll bufsz d.fifo.buffer d.hw bs } bs.length
      hw := (d.hw + bs.length) % bufsz } :=
  if_pos ⟨rfl, hb⟩

theorem Agrees.dmaDone (h : Agrees bufsz true d v) (hnarrow : d.fifo.putIndex + bs.length < 65536) :
    Option.Rel (Agrees bufsz true) (step bufsz true d (.dmaDone bs))
      (viewStep bufsz true v (.dmaDone bs)) := by
  by_cases hb : true = true ∧ 1 ≤ bs.length ∧ bs.length ≤ bufsz
  · have hg := h.holds.get_lt
    obtain ⟨hh, hfull, hget⟩ := putIndex_holds
      (x := { d.fifo with buffer := writeAll bufsz d.fifo.buffer d.hw bs })
      (k := v.unread.length) (n := bs.length)
      ⟨h.holds.get_lt, h.holds.le, h.holds.put, h.holds.not_full, h.holds.full⟩ (h.full rfl)
      hb.2.1 hb.2.2 hnarrow
    have hput : (updatePutIndex bufsz { d.fifo with buffer := writeAll bufsz d.fifo.buffer d.hw bs }
        bs.length).putIndex = (d.hw + bs.length) % bufsz := by
      rw [hh.put, hget, h.hw rfl, h.holds.put, Nat.mod_add_mod, Nat.mod_add_mod]
      rcases Nat.le_total (v.unread.length + bs.length) bufsz with hl | hl
      · congr 1
        show d.fifo.getIndex + (v.unread.length + bs.length - bufsz) + _ = _
        omega
      · congr 1
        show d.fifo.getIndex + (v.unread.length + bs.length - bufsz) + _ = _
        omega
    have hlen : (newest bufsz (v.unread ++ bs)).length =
        min (v.unread.length + bs.length) bufsz := by
      simp
    have hview : viewStep bufsz true v (.dmaDone bs) = some (v.receive bufsz bs) := if_pos hb
    rw [step_dmaDone hb.2, hview]
    exact .some {
      holds := by
        show Holds bufsz _ (newest bufsz (v.unread ++ bs)).length
        rw [hlen]
        exact hh
      cap := by
        show (newest bufsz (v.unread ++ bs)).length ≤ bufsz
        rw [hlen]
        exact Nat.min_le_right _ _
      data := by
        show Ring.contents (updatePutIndex bufsz _ bs.length).buffer bufsz
          (updatePutIndex bufsz _ bs.length).getIndex (newest bufsz (v.unread ++ bs)).length =
          newest bufsz (v.unread ++ bs)
        rw [updatePutIndex_buffer, hget, h.hw rfl, h.holds.put]
        exact pushAll (by omega) h.holds.le h.data
      hw := fun _ => hput.symm
      full := fun _ hf => by
        show (newest bufsz (v.unread ++ bs)).length = bufsz
        rw [hlen]
        exact hfull hf
      left := h.left
      returned := h.returned }
  · have hstep : step bufsz true d (.dmaDone bs) = none := if_neg hb
    have hview : viewStep bufsz true v (.dmaDone bs) = none := if_neg hb
    rw [hstep, hview]
    exact .none

/-- A narrow step. -/
theorem agrees_step (hs : 1 < bufsz) (hb : bufsz ≤ 65535) (h : Agrees bufsz dma d v)
    (hn : Narrow bufsz d a) :
    Option.Rel (Agrees bufsz dma) (step bufsz dma d a) (viewStep bufsz dma v a) := by
  cases dma with
  | false =>
    cases a with
    | rxInd data => exact .some (h.rxInd hs hb)
    | read n =>
      show Option.Rel _ (if _ ∨ d.left ≠ 0 then none else some { d with left := n })
        (if _ ∨ v.left ≠ 0 then none else some { v with left := n })
      rw [h.left]
      split
      · exact .none
      · exact .some ⟨h.holds, h.cap, h.data, h.hw, h.full, rfl, h.returned⟩
    | readRound => exact h.readRound hb hs
    | dmaDone data => exact .none
    | dmaRead n => exact .none
  | true =>
    cases a with
    | rxInd data => exact .none
    | read n => exact .none
    | readRound => exact .none
    | dmaDone data => exact h.dmaDone hn
    | dmaRead n => exact h.dmaRead hn.1 hn.2

/-- Along narrow steps the fifo keeps the newest bytes in order. -/
theorem keeps_of_narrow {as : List Act} (hs : 2 ≤ bufsz) (hb : bufsz ≤ 65535)
    (hn : Along (step bufsz dma) (Narrow bufsz) .opened as) : Keeps bufsz dma as := by
  have hrel : Option.Rel (Agrees bufsz dma) (exec (step bufsz dma) .opened as)
      (exec (viewStep bufsz dma) .opened as) :=
    exec_rel (fun d v a h hc => agrees_step hs hb h hc) hn (agrees_opened hs)
  refine ⟨exec_map (fun d v h => h.view) hrel, fun d hd => ?_⟩
  obtain ⟨v, _, h⟩ := rel_some hrel hd
  exact ⟨h.holds.put_lt, h.holds.get_lt⟩

/-- A part of the first block is read, and the second overruns the fifo. -/
theorem keeps_of_narrow_bytes :
    Along (step 4 true) (Narrow 4) .opened
      [.dmaDone [1, 2, 3], .dmaRead 2, .dmaDone [4, 5, 6, 7], .dmaRead 9] ∧
    Keeps 4 true [.dmaDone [1, 2, 3], .dmaRead 2, .dmaDone [4, 5, 6, 7], .dmaRead 9] :=
  have h : Along (step 4 true) (Narrow 4) .opened
      [.dmaDone [1, 2, 3], .dmaRead 2, .dmaDone [4, 5, 6, 7], .dmaRead 9] := by decide
  ⟨h, keeps_of_narrow (by decide) (by decide) h⟩

/-! ## An index at 65536 -/

section Wrap

variable {B : Nat → UInt8}

theorem first_put (h1 : 32769 ≤ bufsz) (h2 : bufsz ≤ 65535) :
    updatePutIndex bufsz ⟨B, 0, 0, false⟩ (bufsz - 1) = ⟨B, bufsz - 1, 0, false⟩ := by
  have hu : u16 (0 + (bufsz - 1)) = bufsz - 1 := by
    unfold u16
    omega
  have hlt : ¬ bufsz - 1 ≥ bufsz := by omega
  unfold updatePutIndex
  simp only [hu, hlt, if_false, false_and, Nat.le_refl, if_true, Bool.false_eq_true]

theorem first_read (h1 : 32769 ≤ bufsz) (h2 : bufsz ≤ 65535) :
    dmaRx bufsz ⟨B, bufsz - 1, 0, false⟩ (bufsz - 1) =
      some (bytes B 0 (bufsz - 1), ⟨B, bufsz - 1, bufsz - 1, false⟩) := by
  have hr : recvedLen bufsz ⟨B, bufsz - 1, 0, false⟩ = bufsz - 1 := by
    unfold recvedLen
    rw [if_neg (by show ¬ bufsz - 1 = 0; omega), if_pos (by show bufsz - 1 > 0; omega)]
    rfl
  have hu : u16 (0 + (bufsz - 1)) = bufsz - 1 := by
    unfold u16
    omega
  have hlt : ¬ bufsz - 1 ≥ bufsz := by omega
  have hg : updateGetIndex bufsz ⟨B, bufsz - 1, 0, false⟩ (bufsz - 1) =
      ⟨B, bufsz - 1, bufsz - 1, false⟩ := by
    unfold updateGetIndex
    simp only [hu, hlt, if_false, false_and, Bool.false_eq_true]
  unfold dmaRx
  rw [hr]
  simp only [toInt_lt (show bufsz - 1 < 2147483648 by omega), Nat.min_self]
  rw [if_pos (Nat.le_refl _), if_pos (by show 0 + (bufsz - 1) < bufsz; omega), hg]

/-- The write index passes 65536, and is 0. -/
theorem second_put (h1 : 32769 ≤ bufsz) (h2 : bufsz ≤ 65535) :
    updatePutIndex bufsz ⟨B, bufsz - 1, bufsz - 1, false⟩ (65537 - bufsz) =
      ⟨B, 0, bufsz - 1, false⟩ := by
  have hu : u16 (bufsz - 1 + (65537 - bufsz)) = 0 := by
    have hs : bufsz - 1 + (65537 - bufsz) = 65536 := by omega
    rw [hs]
    rfl
  have hlt : ¬ 0 ≥ bufsz := by omega
  unfold updatePutIndex
  simp only [hu, hlt, if_false, false_and, Nat.le_refl, if_true, Bool.false_eq_true]

theorem one_left (h1 : 32769 ≤ bufsz) : recvedLen bufsz ⟨B, 0, bufsz - 1, false⟩ = 1 := by
  unfold recvedLen
  rw [if_neg (by show ¬ 0 = bufsz - 1; omega), if_neg (by show ¬ 0 > bufsz - 1; omega)]
  show bufsz - (bufsz - 1 - 0) = 1
  omega

end Wrap

/-- A fifo of more than 2^15 bytes reports one byte after it is filled up to its last cell, read
out, and so many bytes come that `put_index` is 0 in 16 bits. -/
theorem one_reported {bs cs : List UInt8} (h1 : 32769 ≤ bufsz) (h2 : bufsz ≤ 65535)
    (hbs : bs.length = bufsz - 1) (hcs : cs.length = 65537 - bufsz) :
    ¬ Keeps bufsz true [.dmaDone bs, .dmaRead (bufsz - 1), .dmaDone cs] := by
  have d1 : ∃ B hw, step bufsz true .opened (.dmaDone bs) =
      some ⟨⟨B, bufsz - 1, 0, false⟩, hw, 0, []⟩ := by
    refine ⟨writeAll bufsz (fun _ => 0) 0 bs, (0 + (bufsz - 1)) % bufsz, ?_⟩
    rw [step_dmaDone (by omega), hbs]
    exact congrArg (fun x => some (⟨x, (0 + (bufsz - 1)) % bufsz, 0, []⟩ : Device)) (first_put h1 h2)
  obtain ⟨B, hw, d1⟩ := d1
  have d2 : step bufsz true ⟨⟨B, bufsz - 1, 0, false⟩, hw, 0, []⟩ (.dmaRead (bufsz - 1)) =
      some ⟨⟨B, bufsz - 1, bufsz - 1, false⟩, hw, 0, [] ++ bytes B 0 (bufsz - 1)⟩ := by
    show (dmaRx bufsz ⟨B, bufsz - 1, 0, false⟩ (bufsz - 1)).map _ = _
    rw [first_read h1 h2]
    rfl
  have d3 : ∃ B' hw' r, step bufsz true
      ⟨⟨B, bufsz - 1, bufsz - 1, false⟩, hw, 0, [] ++ bytes B 0 (bufsz - 1)⟩ (.dmaDone cs) =
      some ⟨⟨B', 0, bufsz - 1, false⟩, hw', 0, r⟩ := by
    refine ⟨writeAll bufsz B hw cs, (hw + (65537 - bufsz)) % bufsz, [] ++ bytes B 0 (bufsz - 1), ?_⟩
    rw [step_dmaDone (by omega), hcs]
    exact congrArg (fun x => some (⟨x, (hw + (65537 - bufsz)) % bufsz, 0,
      [] ++ bytes B 0 (bufsz - 1)⟩ : Device)) (second_put h1 h2)
  obtain ⟨B', hw', r, d3⟩ := d3
  have v1 : viewStep bufsz true .opened (.dmaDone bs) =
      some (View.opened.receive bufsz bs) := if_pos ⟨rfl, by omega, by omega⟩
  have v2 : viewStep bufsz true (View.opened.receive bufsz bs) (.dmaRead (bufsz - 1)) =
      some ((View.opened.receive bufsz bs).take (bufsz - 1)) := rfl
  have v3 : viewStep bufsz true ((View.opened.receive bufsz bs).take (bufsz - 1)) (.dmaDone cs) =
      some (((View.opened.receive bufsz bs).take (bufsz - 1)).receive bufsz cs) :=
    if_pos ⟨rfl, by omega, by omega⟩
  rintro ⟨hview, -⟩
  rw [exec_cons d1, exec_cons d2, exec_cons d3, exec_cons v1, exec_cons v2, exec_cons v3] at hview
  have hlen := congrArg (fun v => v.unread.length) (Option.some.inj hview)
  have hone : (reported bufsz ⟨B', 0, bufsz - 1, false⟩).length = 1 := by
    unfold reported
    rw [Ring.length_contents, one_left h1]
  have hmany : (((View.opened.receive bufsz bs).take (bufsz - 1)).receive bufsz cs).unread.length =
      65537 - bufsz := by
    show (newest bufsz ((newest bufsz ([] ++ bs)).drop (bufsz - 1) ++ cs)).length = _
    rw [length_newest, List.length_append, List.length_drop, length_newest, List.nil_append, hbs, hcs]
    omega
  rw [hmany] at hlen
  have hfew : 1 = 65537 - bufsz := hone.symm.trans hlen
  omega

theorem not_keeps_65535 : ¬ Keeps 65535 true
    [.dmaDone (List.replicate 65534 0), .dmaRead 65534, .dmaDone (List.replicate 2 0)] :=
  one_reported (by decide) (by decide) List.length_replicate List.length_replicate

end Tudu.Serial
