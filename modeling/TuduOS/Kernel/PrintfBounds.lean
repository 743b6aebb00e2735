import TuduOS.Kernel.Printf
import TuduOS.Lib.Cursor

/-!
# `rt_vsnprintf`, where it writes

The cursor `str` of `rt_vsnprintf` over a memory of 2^32 bytes, with `end` as its limit
(`Lib/Cursor`).

* `Bounded`: only the buffer is written, and it holds the beginning of the output and a null byte.
* `vsnprintf_bounded_iff`: that is so as long as the end of the output stays below the end of the
  address space. A cursor that wraps is below `end` again and writes from the address 0 on.
-/

namespace Tudu.Printf

open Cursor

abbrev Out := Cursor.State 32 UInt8

/-- `((char *) - 1)` -/
def lastAddr : Word := 0xffffffff#32

/-- `end`, and `size` behind "Make sure end is always >= buf". -/
def endOf (buf size : Word) : Word × Word :=
  if buf + size < buf then (lastAddr, lastAddr - buf) else (buf + size, size)

/-- The null byte. -/
def terminate (limit size : Word) (o : Out) : Out :=
  if 0#32 < size then
    if o.pos < limit then store o o.pos 0 else store o (limit - 1#32) 0
  else o

/-- `rt_vsnprintf`: what it returns, and the memory behind it. -/
def rtVsnprintf (args : Nat → Word) (strAt : Word → List UInt8) (mem : Word → UInt8)
    (buf size : Word) (fmt : List UInt8) : Int × Out :=
  let (limit, size) := endOf buf size
  let o := format (put limit) args strAt fmt.length fmt 0 ⟨buf, mem, []⟩
  ((o.pos - buf).toInt, terminate limit size o)

/-- The call wrote inside the buffer alone, the buffer holds as much of the output as there is room
for in front of a null byte, and the value returned is the length of the output. -/
structure Bounded (buf size : Word) (out : List UInt8) (r : Int × Out) : Prop where
  ret : r.1 = (BitVec.ofNat 32 out.length).toInt
  inside : ∀ a ∈ r.2.writes, (a - buf).toNat < size.toNat
  chars : ∀ i (hi : i < out.length), i + 1 < size.toNat →
    r.2.mem (buf + BitVec.ofNat 32 i) = out.get ⟨i, hi⟩
  null : 0 < size.toNat → r.2.mem (buf + BitVec.ofNat 32 (min out.length (size.toNat - 1))) = 0

/-- The end of the output stays below the end of the address space. -/
def Fits (buf size : Word) (n : Nat) : Prop :=
  buf.toNat + n < 4294967295 ∨
    (buf.toNat + n = 4294967295 ∧ buf.toNat + size.toNat < 4294967296) ∨
    (size = 0#32 ∧ (buf = 0#32 ∨ buf.toNat + n ≤ 4294967296))

variable {args : Nat → Word} {strAt : Word → List UInt8} {mem : Word → UInt8} {buf size : Word}
  {fmt : List UInt8}

theorem rtVsnprintf_eq : rtVsnprintf args strAt mem buf size fmt =
    ((BitVec.ofNat 32 (output args strAt fmt).length).toInt,
      terminate (endOf buf size).1 (endOf buf size).2
        ((output args strAt fmt).foldl (put (endOf buf size).1) ⟨buf, mem, []⟩)) := by
  rw [rtVsnprintf]
  simp only [format_eq]
  rw [puts_pos, BitVec.add_comm, BitVec.add_sub_cancel]

/-- A buffer that ends below the end of the address space. -/
theorem endOf_of_lt (h : buf.toNat + size.toNat < 4294967296) :
    endOf buf size = (buf + size, size) ∧ (buf + size).toNat = buf.toNat + size.toNat := by
  have hadd : (buf + size).toNat = buf.toNat + size.toNat := by
    rw [BitVec.toNat_add, Nat.mod_eq_of_lt h]
  refine ⟨?_, hadd⟩
  rw [endOf, if_neg (by rw [BitVec.lt_def, hadd]; omega)]

/-- The others end at the last address. -/
theorem endOf_of_ge (h0 : buf ≠ 0#32) (h : 4294967296 ≤ buf.toNat + size.toNat) :
    endOf buf size = (lastAddr, lastAddr - buf) := by
  have hb : buf.toNat ≠ 0 := fun hb => h0 (BitVec.eq_of_toNat_eq hb)
  rw [endOf, if_pos]
  rw [BitVec.lt_def, BitVec.toNat_add]
  have := buf.isLt
  have := size.isLt
  omega

theorem mem_terminate_of_mem {limit a : Word} {o : Out} (h : a ∈ o.writes) :
    a ∈ (terminate limit size o).writes := by
  unfold terminate
  split
  · split <;> exact List.mem_cons_of_mem _ h
  · exact h

theorem terminate_mem_of_notMem {limit a : Word} {o : Out} (h : a ∉ (terminate limit size o).writes) :
    (terminate limit size o).mem a = o.mem a := by
  unfold terminate at h ⊢
  split at h
  · rename_i hpos
    rw [if_pos hpos]
    split at h
    · rename_i hlt
      rw [if_pos hlt]
      exact Function.update_of_ne (List.ne_of_not_mem_cons h) ..
    · rename_i hge
      rw [if_neg hge]
      exact Function.update_of_ne (List.ne_of_not_mem_cons h) ..
  · rename_i hzero
    rw [if_neg hzero]

/-! ## Below the end of the address space -/

/-- With room for `room` characters up to the limit, and the output inside the address space. -/
theorem bounded_of_room {limit size' : Word} {room : Nat} {l : List UInt8} (hs : 0#32 < size')
    (hl : limit.toNat = buf.toNat + room) (h0 : 0 < room) (hroom : room ≤ size.toNat)
    (hfit : room = size.toNat ∨ l.length < room) (hn : buf.toNat + l.length < 4294967296) :
    Bounded buf size l ((BitVec.ofNat 32 l.length).toInt,
      terminate limit size' (l.foldl (put limit) ⟨buf, mem, []⟩)) := by
  obtain ⟨hw, hm⟩ := @puts_spec 32 UInt8 limit ⟨buf, mem, []⟩ l
    (Nat.le_of_lt (by exact hn))
  have hlt := limit.isLt
  have hposn : (l.foldl (put limit) ⟨buf, mem, []⟩).pos.toNat = buf.toNat + l.length := by
    rw [puts_pos, toNat_add_ofNat (by exact hn)]
  -- where the null byte goes
  have hmin : (buf + BitVec.ofNat 32 (min l.length (size.toNat - 1))).toNat =
      buf.toNat + min l.length (size.toNat - 1) := toNat_add_ofNat (by omega)
  have hterm : terminate limit size' (l.foldl (put limit) ⟨buf, mem, []⟩) =
      store (l.foldl (put limit) ⟨buf, mem, []⟩)
        (buf + BitVec.ofNat 32 (min l.length (size.toNat - 1))) 0 := by
    rw [terminate, if_pos hs]
    by_cases hlt' : (l.foldl (put limit) ⟨buf, mem, []⟩).pos < limit
    · rw [if_pos hlt']
      rw [BitVec.lt_def, hposn, hl] at hlt'
      congr 1
      apply BitVec.eq_of_toNat_eq
      rw [hposn, hmin]
      omega
    · rw [if_neg hlt']
      rw [BitVec.lt_def, hposn, hl] at hlt'
      congr 1
      apply BitVec.eq_of_toNat_eq
      rw [hmin, BitVec.toNat_sub_of_le (by rw [BitVec.le_def]; show 1 ≤ _; omega), hl]
      show buf.toNat + room - 1 = _
      omega
  rw [hterm]
  refine ⟨rfl, fun a ha => ?_, fun i hi hlt' => ?_, fun _ => Function.update_self ..⟩
  · rcases List.mem_cons.mp ha with rfl | ha
    · rw [BitVec.add_comm, BitVec.add_sub_cancel, BitVec.toNat_ofNat, Nat.mod_eq_of_lt (by omega)]
      omega
    · rcases hw a ha with ha | ⟨hge, hlt'⟩
      · exact absurd ha (List.not_mem_nil)
      · have hge' : buf.toNat ≤ a.toNat := hge
        rw [BitVec.lt_def, hl] at hlt'
        rw [BitVec.toNat_sub_of_le (show buf ≤ a from hge)]
        omega
  · have hne : buf + BitVec.ofNat 32 i ≠ buf + BitVec.ofNat 32 (min l.length (size.toNat - 1)) := by
      intro he
      have := congrArg BitVec.toNat he
      rw [hmin, toNat_add_ofNat (by omega)] at this
      omega
    have hval := hm i hi (by rw [hl]; show buf.toNat + i < _; omega)
    exact (Function.update_of_ne hne ..).trans hval

theorem bounded_of_fits (h : Fits buf size (output args strAt fmt).length) :
    Bounded buf size (output args strAt fmt) (rtVsnprintf args strAt mem buf size fmt) := by
  rw [rtVsnprintf_eq]
  by_cases hw : buf.toNat + size.toNat < 4294967296
  · obtain ⟨he, hadd⟩ := endOf_of_lt hw
    rw [he]
    by_cases h0 : size = 0#32
    · subst h0
      rw [BitVec.add_zero]
      have hwr : ∀ a, a ∉ ((output args strAt fmt).foldl (put buf) ⟨buf, mem, []⟩).writes := by
        intro a ha
        rcases lt_of_mem_puts ha with ha' | hlt
        · exact List.not_mem_nil ha'
        by_cases hb : buf = 0#32
        · rw [hb] at hlt
          exact absurd hlt (BitVec.not_lt_zero)
        · have hn : buf.toNat + (output args strAt fmt).length ≤ 4294967296 := by
            rcases h with h | h | ⟨-, h | h⟩
            · omega
            · omega
            · exact absurd h hb
            · exact h
          rcases (@puts_spec 32 UInt8 buf ⟨buf, mem, []⟩ _ hn).1 a ha with ha' | ⟨hge, -⟩
          · exact List.not_mem_nil ha'
          · exact absurd hlt (BitVec.not_lt.mpr hge)
      exact ⟨rfl, fun a ha => absurd ha (hwr a), fun i hi hlt => absurd hlt (Nat.not_lt_zero _),
        fun hlt => absurd hlt (Nat.lt_irrefl 0)⟩
    · have hs : size.toNat ≠ 0 := fun hs => h0 (BitVec.eq_of_toNat_eq hs)
      have hpos : 0#32 < size := Nat.pos_of_ne_zero hs
      have hn : buf.toNat + (output args strAt fmt).length < 4294967296 := by
        rcases h with h | h | h
        · omega
        · omega
        · exact absurd h.1 h0
      exact bounded_of_room hpos hadd (Nat.pos_of_ne_zero hs) (Nat.le_refl _) (.inl rfl) hn
  · have h0 : buf ≠ 0#32 := by
      rintro rfl
      exact hw (by rw [BitVec.toNat_zero, Nat.zero_add]; exact size.isLt)
    have hn : buf.toNat + (output args strAt fmt).length < 4294967295 := by
      rcases h with h | h | ⟨rfl, -⟩
      · exact h
      · exact absurd h.2 hw
      · exact absurd buf.isLt hw
    have hsub : (lastAddr - buf).toNat = 4294967295 - buf.toNat := by
      rw [BitVec.toNat_sub_of_le (by rw [BitVec.le_def]; show _ ≤ 4294967295; omega)]
      rfl
    rw [endOf_of_ge h0 (Nat.le_of_not_lt hw)]
    have hlim : lastAddr.toNat = buf.toNat + (4294967295 - buf.toNat) := by
      show 4294967295 = _
      omega
    refine bounded_of_room ?_ hlim ?_ ?_ ?_ ?_
    · rw [BitVec.lt_def, hsub, BitVec.toNat_zero]
      omega
    · omega
    · omega
    · exact .inr (by omega)
    · omega

/-! ## Beyond it -/

/-- What is not below the limit is not written. -/
theorem terminate_mem {limit a : Word} {o : Out} (ha : ¬a < limit) (hl : limit ≠ 0#32) :
    (terminate limit size o).mem a = o.mem a := by
  have hpred : a ≠ limit - 1#32 := by
    rintro rfl
    refine ha ?_
    have hl' : limit.toNat ≠ 0 := fun h => hl (BitVec.eq_of_toNat_eq h)
    rw [BitVec.lt_def, BitVec.toNat_sub_of_le (by rw [BitVec.le_def]; show 1 ≤ _; omega)]
    show limit.toNat - 1 < _
    omega
  unfold terminate
  split
  · split
    · have hpos : a ≠ o.pos := by
        rintro rfl
        exact ha ‹_›
      exact Function.update_of_ne hpos ..
    · exact Function.update_of_ne hpred ..
  · rfl

/-- A cursor that wraps writes at the address 0. -/
theorem zero_written (h0 : buf ≠ 0#32) (hw : buf.toNat + size.toNat < 4294967296) {l : List UInt8}
    (h : 4294967296 < buf.toNat + l.length ∨ buf.toNat + l.length = 4294967296 ∧ size ≠ 0#32) :
    0#32 ∈ (terminate (buf + size) size (l.foldl (put (buf + size)) ⟨buf, mem, []⟩)).writes := by
  have hb : buf.toNat ≠ 0 := fun h => h0 (BitVec.eq_of_toNat_eq h)
  have hadd := (endOf_of_lt hw).2
  rcases h with h | ⟨h, hs⟩
  · exact mem_terminate_of_mem (zero_mem_puts (by omega) h)
  · have hpos : (l.foldl (put (buf + size)) ⟨buf, mem, []⟩).pos = 0#32 := by
      rw [puts_pos]
      apply BitVec.eq_of_toNat_eq
      rw [BitVec.toNat_add, BitVec.toNat_ofNat, Nat.add_mod_mod]
      show (buf.toNat + l.length) % 4294967296 = 0
      rw [h]
    have hlt : 0#32 < buf + size := by
      rw [BitVec.lt_def, hadd]
      show 0 < _
      omega
    have hsize : 0#32 < size := Nat.pos_of_ne_zero fun h => hs (BitVec.eq_of_toNat_eq h)
    rw [terminate, if_pos hsize, hpos, if_pos hlt]
    exact List.mem_cons_self

/-- The address 0 is outside of a buffer that ends below the end of the address space. -/
theorem not_bounded_low (h0 : buf ≠ 0#32) (hw : buf.toNat + size.toNat < 4294967296)
    {l : List UInt8} {r : Int} (h : 4294967296 < buf.toNat + l.length ∨
      buf.toNat + l.length = 4294967296 ∧ size ≠ 0#32) :
    ¬Bounded buf size l
      (r, terminate (buf + size) size (l.foldl (put (buf + size)) ⟨buf, mem, []⟩)) := by
  intro hB
  have hb : buf.toNat ≠ 0 := fun hb => h0 (BitVec.eq_of_toNat_eq hb)
  have hz := hB.inside 0#32 (zero_written h0 hw h)
  rw [BitVec.zero_sub, BitVec.toNat_neg] at hz
  have := buf.isLt
  omega

/-- A buffer that goes up to the end of the address space. -/
theorem rtVsnprintf_last (h0 : buf ≠ 0#32) (hw : 4294967296 ≤ buf.toNat + size.toNat) :
    (rtVsnprintf args strAt mem buf size fmt).2 = terminate lastAddr (lastAddr - buf)
      ((output args strAt fmt).foldl (put lastAddr) ⟨buf, mem, []⟩) := by
  rw [rtVsnprintf_eq, endOf_of_ge h0 hw]

theorem lastAddr_unwritten {l : List UInt8} :
    (terminate lastAddr size (l.foldl (put lastAddr) ⟨buf, mem, []⟩)).mem lastAddr =
      mem lastAddr := by
  have hirr : ¬lastAddr < lastAddr := BitVec.lt_irrefl _
  have hne : lastAddr ≠ 0#32 := by decide
  rw [terminate_mem hirr hne, puts_mem_of_ge hirr]

/-- The last address is never written. -/
theorem not_bounded_high (h0 : buf ≠ 0#32) (hw : 4294967296 ≤ buf.toNat + size.toNat)
    (hn : 4294967295 ≤ buf.toNat + (output args strAt fmt).length) :
    ∃ mem, ¬Bounded buf size (output args strAt fmt) (rtVsnprintf args strAt mem buf size fmt) := by
  have hsz := size.isLt
  have haddr : buf + BitVec.ofNat 32 (4294967295 - buf.toNat) = lastAddr := by
    apply BitVec.eq_of_toNat_eq
    have := buf.isLt
    rw [toNat_add_ofNat (by omega)]
    have hlast : lastAddr.toNat = 4294967295 := rfl
    omega
  by_cases hi : 4294967295 - buf.toNat < (output args strAt fmt).length ∧
      4294967295 - buf.toNat + 1 < size.toNat
  · refine ⟨fun _ => (output args strAt fmt).get ⟨_, hi.1⟩ + 1, fun hB => ?_⟩
    have hc := hB.chars _ hi.1 hi.2
    rw [haddr, rtVsnprintf_last h0 hw, lastAddr_unwritten] at hc
    have := congrArg UInt8.toNat hc
    rw [UInt8.toNat_add] at this
    have h1 : (1 : UInt8).toNat = 1 := rfl
    have := ((output args strAt fmt).get ⟨_, hi.1⟩).toNat_lt
    omega
  · refine ⟨fun _ => 1, fun hB => ?_⟩
    have hmin : min (output args strAt fmt).length (size.toNat - 1) = 4294967295 - buf.toNat := by
      omega
    have hc := hB.null (by omega)
    rw [hmin, haddr, rtVsnprintf_last h0 hw, lastAddr_unwritten] at hc
    exact absurd hc (by decide)

theorem not_bounded_of_not_fits (hbuf : buf ≠ 0#32 ∨ size = 0#32)
    (h : ¬Fits buf size (output args strAt fmt).length) :
    ∃ mem, ¬Bounded buf size (output args strAt fmt) (rtVsnprintf args strAt mem buf size fmt) := by
  have h0 : buf ≠ 0#32 := by
    rcases hbuf with hb | hs
    · exact hb
    · exact fun hb => h (.inr (.inr ⟨hs, .inl hb⟩))
  have hn : 4294967295 ≤ buf.toNat + (output args strAt fmt).length :=
    Nat.le_of_not_lt fun hn => h (.inl hn)
  by_cases hw : buf.toNat + size.toNat < 4294967296
  · refine ⟨fun _ => 0, ?_⟩
    rw [rtVsnprintf_eq, (endOf_of_lt hw).1]
    refine not_bounded_low h0 hw ?_
    by_cases hs : size = 0#32
    · exact .inl (Nat.lt_of_not_le fun hle => h (.inr (.inr ⟨hs, .inr hle⟩)))
    · have hne : buf.toNat + (output args strAt fmt).length ≠ 4294967295 := fun he =>
        h (.inr (.inl ⟨he, hw⟩))
      by_cases hlt : 4294967296 < buf.toNat + (output args strAt fmt).length
      · exact .inl hlt
      · exact .inr ⟨by omega, hs⟩
  · exact not_bounded_high h0 (Nat.le_of_not_lt hw) hn

/-- For every buffer but a null pointer, and whatever the memory held. -/
theorem vsnprintf_bounded_iff (args : Nat → Word) (strAt : Word → List UInt8) (fmt : List UInt8)
    (buf size : Word) (hbuf : buf ≠ 0#32 ∨ size = 0#32) :
    (∀ mem, Bounded buf size (output args strAt fmt) (rtVsnprintf args strAt mem buf size fmt)) ↔
      Fits buf size (output args strAt fmt).length := by
  constructor
  · intro hB
    by_contra h
    obtain ⟨mem, hmem⟩ := not_bounded_of_not_fits hbuf h
    exact hmem (hB mem)
  · exact fun h mem => bounded_of_fits h

/-- The number 42 in a buffer of three bytes. -/
theorem vsnprintf_bounded_number :
    Bounded 0x20001000#32 3#32 (output (fun _ => 42#32) (fun _ => []) [chr '%', chr 'd'])
      (rtVsnprintf (fun _ => 42#32) (fun _ => []) (fun _ => 0) 0x20001000#32 3#32 [chr '%', chr 'd']) :=
  (vsnprintf_bounded_iff (fun _ => 42#32) (fun _ => []) [chr '%', chr 'd'] 0x20001000#32 3#32
    (.inl (by decide))).mpr (.inl (by decide)) _

/-- `%*c` -/
def wideFmt : List UInt8 := [chr '%', chr '*', chr 'c']

theorem wideFmt_length {w : Int} (hw : (args 0).toInt = w) (h0 : 0 < int (w - 1)) (h1 : ¬w < 0) :
    (output args strAt wideFmt).length = (int (w - 1)).toNat + 1 := by
  have hconv : getConv args [chr '*', chr 'c'] 0 =
      ⟨[chr 'c'], 1, ⟨false, false, false, false, false, false, false⟩, w, -1, 0⟩ := by
    have hget : getWidth args
        ⟨[chr '*', chr 'c'], 0, ⟨false, false, false, false, false, false, false⟩, -1, -1, 0⟩ =
        ⟨[chr 'c'], 1, ⟨false, false, false, false, false, false, false⟩, w, -1, 0⟩ := by
      simp only [getWidth, hw]
      rw [if_neg (by decide), if_pos trivial, if_neg h1]
    simp only [getConv]
    rw [show getFlags [chr '*', chr 'c'] ⟨false, false, false, false, false, false, false⟩ =
      ([chr '*', chr 'c'], ⟨false, false, false, false, false, false, false⟩) from rfl, hget]
    rfl
  have hlast : (int (0 - 1)).toNat = 0 := by decide
  simp only [output, wideFmt, List.length_cons, List.length_nil, format, ne_eq, not_true_eq_false,
    if_false, hconv, convert, if_true, convertChar, padBefore_eq, hlast, if_pos h0,
    Bool.false_eq_true, not_false_eq_true, List.tail_cons,
    List.replicate_zero, List.foldl_nil, List.length_append, foldl_snoc, List.length_replicate,
    Nat.zero_add]

/-- A width of 2^31 - 1 and the letter A. -/
def wideArgs (n : Nat) : Word := if n = 0 then 0x7fffffff#32 else 0x41#32

/-- A buffer in the SDRAM of the board: the cursor wraps. -/
theorem vsnprintf_wraps : ¬∀ mem, Bounded 0xd0000000#32 16#32
    (output wideArgs (fun _ => []) wideFmt)
    (rtVsnprintf wideArgs (fun _ => []) mem 0xd0000000#32 16#32 wideFmt) := by
  intro hB
  have hn : ¬Fits 0xd0000000#32 16#32 (output wideArgs (fun _ => []) wideFmt).length := by
    rw [wideFmt_length (by rfl : (wideArgs 0).toInt = 2147483647) (by decide) (by decide), Fits]
    decide
  obtain ⟨mem, hmem⟩ := not_bounded_of_not_fits (.inl (by decide)) hn
  exact hmem (hB mem)

end Tudu.Printf
