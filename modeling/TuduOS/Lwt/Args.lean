import TuduOS.Kernel.Memcpy
import TuduOS.Lib.Tiling

/-!
# The arguments of a process (`lwt_argscopy`)

One block: `argc`, the address of the table, the table of `argc` pointers and a null pointer, and the
strings behind it. One loop adds up the size and another fills the block.

* A memory is the byte at every address. A loop over a string has no value if there is no null byte
  in the address space.
* `sizeLoop_eq`: the first loop comes to the length of the block, if that is a number of 32 bits.
* `copyLoop_spec`: the second one puts the strings end to end, and writes nothing else.
-/

namespace Tudu.Lwt.Args

open Bytes (Memory get set)
open Tiling

def strlenLoop (m : Memory) : Nat → Nat → Option Nat
  | 0, _ => none
  | n + 1, a => if m a = 0 then some 0 else (strlenLoop m n (a + 1)).map (· + 1)

def rtStrlen (m : Memory) (s : Nat) : Option Nat := strlenLoop m 4294967296 s

/-- The pointer `table[i]` -/
def pointer (m : Memory) (table i : Nat) : Nat := get m (table + 4 * i) 4

/-- `for (i = 0; i < argc; i ++) size += (rt_strlen(argv[i]) + 1);`, `n` rounds from `i` on -/
def sizeLoop (m : Memory) (argv : Nat) : Nat → Nat → Nat → Option Nat
  | 0, _, size => some size
  | n + 1, i, size =>
    (rtStrlen m (pointer m argv i)).bind fun len => sizeLoop m argv n (i + 1) (add32 size (len + 1))

/-- The loop that fills the block, `n` rounds from `i` on, and the null pointer behind the table -/
def copyLoop (argv newArgv : Nat) : Nat → Nat → Nat → Memory → Option Memory
  | 0, i, _, m => some (set m (newArgv + 4 * i) 4 0)
  | n + 1, i, str, m =>
    (rtStrlen m (pointer m argv i)).bind fun l =>
      let len := l + 1
      let m := set m (newArgv + 4 * i) 4 str
      copyLoop argv newArgv n (i + 1) (str + len) (rtMemcpy m str (pointer m argv i) len)

/-- `lwt_argscopy(lwt, argc, argv)`: what it returns, the memory, and `lwt->args`. `malloc`: what
`rt_malloc` returns for a size. -/
def lwtArgscopy (m : Memory) (argc argv : Nat) (malloc : Nat → Option Nat) :
    Option (Int × Memory × Option Nat) :=
  (sizeLoop m argv argc 0 12).bind fun size =>
    match malloc (add32 size (4 * argc)) with
    | none => some (-rtError, m, none)
    | some args =>
      let str := args + (argc + 3) * 4
      let newArgv := args + 8
      let m := set (set m args 4 argc) (args + 4) 4 newArgv
      (copyLoop argv newArgv argc 0 str m).map fun m => (0, m, some args)

/-! ## Strings -/

/-- The text `s` is at `a`, with a null byte behind it. -/
structure StringAt (m : Memory) (a : Nat) (s : List UInt8) : Prop where
  bytes : ∀ i b, s[i]? = some b → m (a + i) = b
  null : m (a + s.length) = 0
  not_null : 0 ∉ s

/-- The bytes of a text, with the null byte -/
def strBytes (s : List UInt8) : Nat := s.length + 1

variable {m m' : Memory} {a argv newArgv i str lo hi : Nat} {s : List UInt8} {l : List (List UInt8)}

theorem StringAt.congr (h : StringAt m a s) (hm : ∀ x, a ≤ x → x < a + strBytes s → m' x = m x) :
    StringAt m' a s where
  bytes i b hb := by
    have hlt : i < s.length := (List.getElem?_eq_some_iff.mp hb).1
    rw [hm (a + i) (Nat.le_add_right a i) (by unfold strBytes; omega)]
    exact h.bytes i b hb
  null := by
    rw [hm (a + s.length) (Nat.le_add_right a _) (by unfold strBytes; omega)]
    exact h.null
  not_null := h.not_null

theorem StringAt.tail {b : UInt8} (h : StringAt m a (b :: s)) : StringAt m (a + 1) s where
  bytes i c hc := by
    rw [Nat.add_assoc, Nat.add_comm 1 i]
    exact h.bytes (i + 1) c hc
  null := by
    have hnull := h.null
    rwa [List.length_cons, Nat.add_comm s.length 1, ← Nat.add_assoc] at hnull
  not_null hm := h.not_null (List.mem_cons_of_mem b hm)

theorem rtStrlen_eq (h : StringAt m a s) (hlen : s.length < 4294967296) :
    rtStrlen m a = some s.length := by
  have hloop : ∀ n, s.length < n → strlenLoop m n a = some s.length := by
    intro n hn
    induction s generalizing a n with
    | nil =>
      cases n with
      | zero => omega
      | succ n => exact if_pos h.null
    | cons b s ih =>
      cases n with
      | zero => omega
      | succ n =>
        rw [List.length_cons] at hlen hn
        have hb : m a = b := h.bytes 0 b rfl
        have hne : m a ≠ 0 := by
          rw [hb]
          rintro rfl
          exact h.not_null List.mem_cons_self
        unfold strlenLoop
        rw [if_neg hne, ih h.tail (by omega) n (by omega)]
        rfl
  exact hloop _ hlen

/-! ## The arguments -/

/-- The pointers of the table from `i` on point to the texts. -/
def Points (m : Memory) (table i : Nat) (l : List (List UInt8)) : Prop :=
  ∀ k s, l[k]? = some s → StringAt m (pointer m table (i + k)) s

/-- The table and the texts lie outside of the block from `lo` to `hi`. -/
structure Outside (m : Memory) (table i : Nat) (l : List (List UInt8)) (lo hi : Nat) : Prop where
  list : table + 4 * (i + l.length) ≤ lo ∨ hi ≤ table + 4 * i
  texts : ∀ k s, l[k]? = some s →
    pointer m table (i + k) + strBytes s ≤ lo ∨ hi ≤ pointer m table (i + k)

theorem Points.tail (h : Points m argv i (s :: l)) : Points m argv (i + 1) l := by
  intro k t ht
  rw [Nat.add_assoc, Nat.add_comm 1 k]
  exact h (k + 1) t ht

theorem Outside.tail (h : Outside m argv i (s :: l) lo hi) : Outside m argv (i + 1) l lo hi where
  list := by
    have ht := h.list
    rw [List.length_cons] at ht
    omega
  texts k t ht := by
    rw [Nat.add_assoc, Nat.add_comm 1 k]
    exact h.texts (k + 1) t ht

/-- What is written in the block changes no pointer that the loops read. -/
theorem Outside.pointer {k : Nat} (h : Outside m argv i l lo hi) (hk : k < l.length)
    (hm : ∀ x, x < lo ∨ hi ≤ x → m' x = m x) :
    Args.pointer m' argv (i + k) = Args.pointer m argv (i + k) := by
  have ht := h.list
  exact Bytes.get_congr fun x h1 h2 => hm x (by omega)

theorem Outside.congr (h : Outside m argv i l lo hi) (hm : ∀ x, x < lo ∨ hi ≤ x → m' x = m x) :
    Outside m' argv i l lo hi where
  list := h.list
  texts k s hs := by
    rw [h.pointer (List.getElem?_eq_some_iff.mp hs).1 hm]
    exact h.texts k s hs

theorem Points.congr (h : Points m argv i l) (ho : Outside m argv i l lo hi)
    (hm : ∀ x, x < lo ∨ hi ≤ x → m' x = m x) : Points m' argv i l := by
  intro k s hs
  rw [ho.pointer (List.getElem?_eq_some_iff.mp hs).1 hm]
  have htexts := ho.texts k s hs
  exact (h k s hs).congr fun x h1 h2 => hm x (by omega)

/-! ## The loops -/

theorem sizeLoop_eq {size : Nat} (h : Points m argv i l)
    (hfit : size + total strBytes l < 4294967296) :
    sizeLoop m argv l.length i size = some (size + total strBytes l) := by
  induction l generalizing i size with
  | nil => rfl
  | cons s l ih =>
    rw [total_cons] at hfit ⊢
    have hs : strBytes s = s.length + 1 := rfl
    rw [List.length_cons]
    have hread : StringAt m (pointer m argv i) s := h 0 s rfl
    unfold sizeLoop
    rw [rtStrlen_eq hread (by omega), Option.bind_some,
      add32_of_lt (show size + (s.length + 1) < 2 ^ 32 by omega), ih h.tail (by omega)]
    congr 1
    omega

/-- What the loop that fills the block leaves: pointers to the texts, end to end from `str` on, and a
null pointer behind them. -/
structure Filled (m m' : Memory) (newArgv i str : Nat) (l : List (List UInt8)) : Prop where
  texts : ∀ k p, (place strBytes str l)[k]? = some p →
    pointer m' newArgv (i + k) = p.1 ∧ StringAt m' p.1 p.2
  null : pointer m' newArgv (i + l.length) = 0
  other : ∀ x, x < newArgv + 4 * i ∨ newArgv + 4 * (i + l.length) + 4 ≤ x →
    x < str ∨ str + total strBytes l ≤ x → m' x = m x

theorem copyLoop_spec (h : Points m argv i l) (ho : Outside m argv i l lo hi)
    (hlo : lo ≤ newArgv + 4 * i) (hstr : newArgv + 4 * (i + l.length) + 4 ≤ str)
    (hhi : str + total strBytes l ≤ hi) (hmax : hi ≤ 4294967296) :
    ∃ m', copyLoop argv newArgv l.length i str m = some m' ∧ Filled m m' newArgv i str l := by
  induction l generalizing m i str with
  | nil =>
    refine ⟨_, rfl, fun k p hp => (by cases hp), Bytes.get_set_self, fun x hx _ => if_neg ?_⟩
    rw [List.length_nil] at hx
    omega
  | cons s l ih =>
    rw [total_cons] at hhi
    rw [List.length_cons] at hstr
    have hs : strBytes s = s.length + 1 := rfl
    have htext := ho.texts 0 s rfl
    rw [Nat.add_zero] at htext
    have hread : StringAt m (pointer m argv i) s := h 0 s rfl
    -- the pointer is written, and the text is copied
    have hset : ∀ x, x < newArgv + 4 * i ∨ newArgv + 4 * i + 4 ≤ x →
        set m (newArgv + 4 * i) 4 str x = m x := fun x hx => if_neg (by omega)
    have hptr : pointer (set m (newArgv + 4 * i) 4 str) argv i = pointer m argv i :=
      ho.pointer (Nat.zero_lt_succ _) fun x hx => hset x (by omega)
    have hcopy : rtMemcpy (set m (newArgv + 4 * i) 4 str) str (pointer m argv i) (s.length + 1) =
        Bytes.copy (set m (newArgv + 4 * i) 4 str) str (pointer m argv i) (s.length + 1) :=
      rtMemcpy_eq (by omega)
    have hstep : copyLoop argv newArgv (s :: l).length i str m = copyLoop argv newArgv l.length (i + 1)
        (str + (s.length + 1)) (Bytes.copy (set m (newArgv + 4 * i) 4 str) str (pointer m argv i)
          (s.length + 1)) := by
      rw [List.length_cons]
      conv_lhs => unfold copyLoop
      rw [rtStrlen_eq hread (by omega), Option.bind_some]
      simp only
      rw [hptr, hcopy]
    generalize hm1 : Bytes.copy (set m (newArgv + 4 * i) 4 str) str (pointer m argv i)
      (s.length + 1) = m1 at hstep
    have hother : ∀ x, x < newArgv + 4 * i ∨ newArgv + 4 * i + 4 ≤ x →
        x < str ∨ str + strBytes s ≤ x → m1 x = m x := by
      intro x hx hx'
      rw [← hm1]
      exact (if_neg (by omega)).trans (hset x hx)
    have hslot : get m1 (newArgv + 4 * i) 4 = str := by
      rw [Bytes.get_congr (m := set m (newArgv + 4 * i) 4 str) fun x h1 h2 => ?_,
        Bytes.get_set_self]
      · exact Nat.mod_eq_of_lt (by omega)
      · rw [← hm1]
        exact if_neg (by omega)
    have hnew : StringAt m1 str s := by
      have hbyte : ∀ k, k < strBytes s → m1 (str + k) = m (pointer m argv i + k) := by
        intro k hk
        have hin : str ≤ str + k ∧ str + k < str + (s.length + 1) := by omega
        rw [← hm1]
        refine (if_pos hin).trans ?_
        rw [Nat.add_sub_cancel_left]
        exact hset _ (by omega)
      refine ⟨fun k b hb => ?_, ?_, hread.not_null⟩
      · rw [hbyte k (by have := (List.getElem?_eq_some_iff.mp hb).1; omega)]
        exact hread.bytes k b hb
      · rw [hbyte s.length (by omega)]
        exact hread.null
    have hin : ∀ x, x < lo ∨ hi ≤ x → m1 x = m x := fun x hx => hother x (by omega) (by omega)
    obtain ⟨m', hloop, hfill⟩ : ∃ m',
        copyLoop argv newArgv l.length (i + 1) (str + (s.length + 1)) m1 = some m' ∧
          Filled m1 m' newArgv (i + 1) (str + (s.length + 1)) l :=
      ih (h.tail.congr ho.tail hin) (ho.tail.congr hin) (by omega) (by omega) (by omega)
    refine ⟨m', hstep.trans hloop, fun k p hp => ?_, ?_, fun x hx hx' => ?_⟩
    · cases k with
      | zero =>
        cases hp
        refine ⟨?_, hnew.congr fun x h1 h2 => hfill.other x (by omega) (by omega)⟩
        refine Eq.trans (Bytes.get_congr fun x h1 h2 => ?_) hslot
        exact hfill.other x (by omega) (by omega)
      | succ k =>
        have hrest := hfill.texts k p hp
        rwa [Nat.add_assoc, Nat.add_comm 1 k] at hrest
    · have hnull := hfill.null
      rwa [Nat.add_assoc, Nat.add_comm 1] at hnull
    · rw [List.length_cons] at hx
      rw [total_cons] at hx'
      rw [hfill.other x (by omega) (by omega)]
      exact hother x (by omega) (by omega)

/-! ## The function -/

/-- `size` of `lwt_argscopy`, for the texts `l` -/
def blockSize (l : List (List UInt8)) : Nat := 12 + 4 * l.length + total strBytes l

/-- The block of `size` bytes at `args` has the number of the texts, and from `table` on pointers to
them. The texts are in the block and do not overlap, and no byte outside of it has changed. -/
structure Packed (m m' : Memory) (args size table : Nat) (l : List (List UInt8)) : Prop where
  argc : get m' args 4 = l.length
  texts : ∀ k s, l[k]? = some s → args ≤ pointer m' table k ∧
    pointer m' table k + strBytes s ≤ args + size ∧ StringAt m' (pointer m' table k) s
  apart : ∀ j k s, j < k → k < l.length → l[j]? = some s →
    pointer m' table j + strBytes s ≤ pointer m' table k
  inside : ∀ x, x < args ∨ args + size ≤ x → m' x = m x

theorem Filled.packed {args : Nat} (h : Filled m m' (args + 8) 0 (args + (l.length + 3) * 4) l) :
    (∀ k s, l[k]? = some s → args ≤ pointer m' (args + 8) k ∧
      pointer m' (args + 8) k + strBytes s ≤ args + blockSize l ∧
        StringAt m' (pointer m' (args + 8) k) s) ∧
    ∀ j k s, j < k → k < l.length → l[j]? = some s →
      pointer m' (args + 8) j + strBytes s ≤ pointer m' (args + 8) k := by
  have hplace : ∀ k s, l[k]? = some s → ∃ p,
      (place strBytes (args + (l.length + 3) * 4) l)[k]? = some p ∧ p.2 = s ∧
        pointer m' (args + 8) k = p.1 := by
    intro k s hs
    rw [← place_map_snd (args + (l.length + 3) * 4) l, List.getElem?_map,
      Option.map_eq_some_iff] at hs
    obtain ⟨p, hp, hps⟩ := hs
    have hptr := (h.texts k p hp).1
    rw [Nat.zero_add] at hptr
    exact ⟨p, hp, hps, hptr⟩
  refine ⟨fun k s hs => ?_, fun j k s hjk hk hs => ?_⟩
  · obtain ⟨p, hp, rfl, hptr⟩ := hplace k s hs
    have hbound := place_bound (List.mem_of_getElem? hp)
    have hsize : blockSize l = 12 + 4 * l.length + total strBytes l := rfl
    rw [hptr]
    exact ⟨by omega, by omega, (h.texts k p hp).2⟩
  · obtain ⟨p, hp, rfl, hptr⟩ := hplace j s hs
    obtain ⟨q, hq, -, hptr'⟩ := hplace k _ (List.getElem?_eq_getElem hk)
    rw [hptr, hptr']
    obtain ⟨hj, rfl⟩ := List.getElem?_eq_some_iff.mp hp
    obtain ⟨hk', rfl⟩ := List.getElem?_eq_some_iff.mp hq
    exact List.pairwise_iff_getElem.mp (place_apart _ l) j k hj hk' hjk

/-- **The arguments are packed.** For every number of arguments whose block has a size of 32 bits:
the first word is their number, the second the address of the table behind it, whose pointers lead to
copies of them, in order, and end with a null pointer. -/
theorem lwtArgscopy_packed {args : Nat} {malloc : Nat → Option Nat} (h : Points m argv 0 l)
    (hsize : blockSize l < 4294967296) (hmalloc : malloc (blockSize l) = some args)
    (ho : Outside m argv 0 l args (args + blockSize l))
    (hmax : args + blockSize l ≤ 4294967296) :
    ∃ m', lwtArgscopy m l.length argv malloc = some (0, m', some args) ∧
      Packed m m' args (blockSize l) (args + 8) l ∧ get m' (args + 4) 4 = args + 8 ∧
      pointer m' (args + 8) l.length = 0 := by
  have hdef : blockSize l = 12 + 4 * l.length + total strBytes l := rfl
  have hsum : sizeLoop m argv l.length 0 12 = some (12 + total strBytes l) :=
    sizeLoop_eq h (by omega)
  have hadd : add32 (12 + total strBytes l) (4 * l.length) = blockSize l := by
    rw [add32_of_lt (show 12 + total strBytes l + 4 * l.length < 2 ^ 32 by omega)]
    omega
  generalize hm1 : set (set m args 4 l.length) (args + 4) 4 (args + 8) = m1
  have hout : ∀ x, x < args ∨ args + blockSize l ≤ x → m1 x = m x := by
    intro x hx
    rw [← hm1]
    exact (if_neg (by omega)).trans (if_neg (by omega))
  have hargc : get m1 args 4 = l.length := by
    rw [← hm1, Bytes.get_set_apart (by omega), Bytes.get_set_self]
    exact Nat.mod_eq_of_lt (by omega)
  have hargv : get m1 (args + 4) 4 = args + 8 := by
    rw [← hm1, Bytes.get_set_self]
    exact Nat.mod_eq_of_lt (by omega)
  obtain ⟨m', hloop, hfill⟩ : ∃ m',
      copyLoop argv (args + 8) l.length 0 (args + (l.length + 3) * 4) m1 = some m' ∧
        Filled m1 m' (args + 8) 0 (args + (l.length + 3) * 4) l :=
    copyLoop_spec (h.congr ho hout) (ho.congr hout) (by omega) (by omega) (by omega) hmax
  have hhead : ∀ x, x < args + 8 → m' x = m1 x := fun x hx =>
    hfill.other x (by omega) (by omega)
  refine ⟨m', ?_, ⟨?_, hfill.packed.1, hfill.packed.2, fun x hx => ?_⟩, ?_, ?_⟩
  · unfold lwtArgscopy
    rw [hsum, Option.bind_some, hadd, hmalloc]
    simp only
    rw [hm1, hloop]
    rfl
  · exact (Bytes.get_congr fun x _ hx => hhead x (by omega)).trans hargc
  · rw [hfill.other x (by omega) (by omega), hout x hx]
  · exact (Bytes.get_congr fun x _ hx => hhead x (by omega)).trans hargv
  · have hnull := hfill.null
    rwa [Nat.zero_add] at hnull

/-- The text `a` at 100, and a table with its address at 200 -/
def oneArg : Memory := fun x => if x = 100 then 97 else if x = 200 then 100 else 0

theorem oneArg_points : Points oneArg 200 0 [[97]] := by
  intro k s hs
  have hk : k = 0 := by
    have hlt := (List.getElem?_eq_some_iff.mp hs).1
    rw [List.length_singleton] at hlt
    omega
  subst hk
  cases hs
  refine ⟨fun i b hb => ?_, by decide, by decide⟩
  have hi : i = 0 := by
    have hlt := (List.getElem?_eq_some_iff.mp hb).1
    rw [List.length_singleton] at hlt
    omega
  subst hi
  cases hb
  decide

theorem oneArg_outside : Outside oneArg 200 0 [[97]] 1000 1018 where
  list := by decide
  texts k s hs := by
    have hk : k = 0 := by
      have hlt := (List.getElem?_eq_some_iff.mp hs).1
      rw [List.length_singleton] at hlt
      omega
    subst hk
    cases hs
    decide

theorem lwtArgscopy_packed_one : ∃ m',
    lwtArgscopy oneArg 1 200 (fun _ => some 1000) = some (0, m', some 1000) ∧
      Packed oneArg m' 1000 18 1008 [[97]] ∧ get m' 1004 4 = 1008 ∧ pointer m' 1008 1 = 0 :=
  lwtArgscopy_packed oneArg_points (by decide) rfl oneArg_outside (by decide)

/-- The second word points to the table and to no argument. -/
theorem lwtArgscopy_table : ¬ ∀ (m : Memory) (argv args : Nat) (malloc : Nat → Option Nat)
    (l : List (List UInt8)), Points m argv 0 l → malloc (blockSize l) = some args →
      Outside m argv 0 l args (args + blockSize l) → args + blockSize l ≤ 4294967296 →
      ∃ m', lwtArgscopy m l.length argv malloc = some (0, m', some args) ∧
        Packed m m' args (blockSize l) (args + 4) l := by
  intro h
  obtain ⟨m', hrun, hpacked⟩ := h oneArg 200 1000 (fun _ => some 1000) [[97]] oneArg_points rfl
    oneArg_outside (by decide)
  have heval : (lwtArgscopy oneArg 1 200 (fun _ => some 1000)).map
      (fun r => (pointer r.2.1 1004 0, r.2.1 1008)) = some (1008, 248) := by decide +kernel
  rw [show lwtArgscopy oneArg 1 200 (fun _ => some 1000) = some (0, m', some 1000) from hrun] at heval
  obtain ⟨hptr, hbyte⟩ := Prod.mk.inj (Option.some.inj heval)
  have htext := (hpacked.texts 0 [97] rfl).2.2.bytes 0 97 rfl
  change m' (pointer m' 1004 0 + 0) = 97 at htext
  have hptr' : pointer m' 1004 0 = 1008 := hptr
  have hbyte' : m' 1008 = 248 := hbyte
  rw [hptr', Nat.add_zero, hbyte'] at htext
  exact absurd htext (by decide)

end Tudu.Lwt.Args
