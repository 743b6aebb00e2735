import TuduOS.Kernel.PrintfBounds

/-!
# Log lines (`ulog_formater`)

The line is put together in the buffer `log_buf` of `ULOG_LINE_BUF_SIZE + 1` bytes, over a memory of
2^32 bytes, with the addresses that are written beside it. Without `ULOG_TIME_USING_TIMESTAMP` and
`ULOG_OUTPUT_FLOAT`.

* `Line`: the memory and `log_len`. `add` is `ulog_strcpy` at the end of the line.
* `ulogFormater`: the function. It has no value where `ulog_strcpy` asserts that its source is not
  null.
* `Upto`: the line so far is a text of some length, or as much of it as there is room for.
* `formater_lineOk_iff`: only the buffer is written as long as the time and the thread's name fit and
  the output of `rt_vsnprintf` does.
-/

namespace Tudu.UlogLine

open Printf

abbrev Text := List UInt8

structure UlogConfig where
  /-- `ULOG_LINE_BUF_SIZE` -/
  lineBufSize : Nat
  /-- Less than 80 is an `#error`. -/
  lineBufSize_ge : 80 ≤ lineBufSize
  usingColor : Bool
  outputTime : Bool
  outputLevel : Bool
  outputTag : Bool
  outputThreadName : Bool
  colorOutputInfo : Fin 8 → Option Text
  newlineSign : Text

/-- `CSI_START` -/
def csiStart : Text := [27, chr '[']

/-- `CSI_END` -/
def csiEnd : Text := [27, chr '[', chr '0', chr 'm']

def levelOutputInfo (level : Fin 8) : Option Text :=
  match level.val with
  | 0 => some [chr 'A', chr '/']
  | 3 => some [chr 'E', chr '/']
  | 4 => some [chr 'W', chr '/']
  | 6 => some [chr 'I', chr '/']
  | 7 => some [chr 'D', chr '/']
  | _ => none

/-- The memory, and the static variable `log_len`. `writes` are the addresses that were written. -/
structure Line where
  mem : Word → UInt8
  writes : List Word
  logLen : Word

def Line.store (l : Line) (a : Word) (v : UInt8) : Line :=
  { l with mem := Function.update l.mem a v, writes := a :: l.writes }

/-- The characters one behind the other. -/
def storeAll : Word → Text → Line → Line
  | _, [], l => l
  | a, v :: text, l => storeAll (a + 1#32) text (l.store a v)

/-- `color_output_info[level]`, where colors are used. -/
def UlogConfig.color (c : UlogConfig) (level : Fin 8) : Option Text :=
  if c.usingColor then c.colorOutputInfo level else none

/-- The size as a number of the machine. -/
def UlogConfig.size (c : UlogConfig) : Word := BitVec.ofNat 32 c.lineBufSize

section

variable (c : UlogConfig) (buf : Word)

/-- The loop of `ulog_strcpy(cur_len, dst, src)`. -/
def ulogStrcpy : Word → Word → Text → Line → Word × Line
  | _, _, [], l => (0#32, l)
  | curLen, dst, ch :: src, l =>
    if curLen < c.size then
      let r := ulogStrcpy (curLen + 1#32) (dst + 1#32) src (l.store dst ch)
      (r.1 + 1#32, r.2)
    else (0#32, l)

/-- `log_len += ulog_strcpy(log_len, log_buf + log_len, src);` -/
def add (src : Text) (l : Line) : Line :=
  let r := ulogStrcpy c l.logLen (buf + l.logLen) src l
  { r.2 with logLen := l.logLen + r.1 }

def addIf (p : Bool) (src : Text) (l : Line) : Line := if p then add c buf src l else l

/-- `add CSI start sign and color info` -/
def addColor (level : Fin 8) (l : Line) : Line :=
  match c.color level with
  | some color => add c buf color (add c buf csiStart l)
  | none => l

/-- The digits of a number, the lowest first. -/
def ultoaDigits : Nat → Nat → Text
  | 0, _ => []
  | rounds + 1, n =>
    UInt8.ofNat (n % 10 + 48) :: if n / 10 = 0 then [] else ultoaDigits rounds (n / 10)

/-- `ulog_ultoa(s, n)`: the digits, the null byte, and the digits the other way round. -/
def ulogUltoa (s n : Word) (l : Line) : Word × Line :=
  let digits := ultoaDigits 10 n.toNat
  let len := BitVec.ofNat 32 digits.length
  (len, storeAll s digits.reverse ((storeAll s digits l).store (s + len) 0))

def strlen (mem : Word → UInt8) : Nat → Word → Word
  | 0, _ => 0#32
  | n + 1, a => if mem a = 0 then 0#32 else strlen mem n (a + 1#32) + 1#32

/-- `add time info` -/
def addTime (tick : Word) (l : Line) : Line :=
  let l := l.store (buf + l.logLen) (chr '[')
  let r := ulogUltoa (buf + l.logLen + 1#32) tick l
  let l := r.2.store (buf + l.logLen + 1#32 + r.1) (chr ']')
  let l := l.store (buf + l.logLen + 1#32 + r.1 + 1#32) 0
  { l with logLen := l.logLen + strlen l.mem 4294967296 (buf + l.logLen) }

/-- `add level info` -/
def addLevel (level : Fin 8) (l : Line) : Option Line :=
  if c.outputLevel then
    (levelOutputInfo level).map fun info => add c buf info (addIf c buf c.outputTime [chr ' '] l)
  else some l

def addTag (tag : Text) (l : Line) : Line :=
  if c.outputTag then
    add c buf tag (addIf c buf (!c.outputLevel && c.outputTime) [chr ' '] l)
  else l

/-- Who logs: the tick, whether in an interrupt, and the first `rt_strnlen(.., RT_NAME_MAX)`
characters of the thread's name. -/
structure Context where
  tick : Word
  isr : Bool
  name : Text

/-- `rt_strncpy` of the name, and `log_len += name_len`. -/
def addName (name : Text) (l : Line) : Line :=
  { storeAll (buf + l.logLen) name l with logLen := l.logLen + BitVec.ofNat 32 name.length }

/-- `add thread info` -/
def addThread (ctx : Context) (l : Line) : Line :=
  if c.outputThreadName then
    let l := addIf c buf (c.outputTime || c.outputLevel || c.outputTag) [chr ' '] l
    if ctx.isr then add c buf [chr 'I', chr 'S', chr 'R'] l else addName buf ctx.name l
  else l

/-- `rt_vsnprintf`, and `calculate log length` -/
def addMessage (args : Nat → Word) (strAt : Word → List UInt8) (fmt : Text) (l : Line) : Line :=
  let r := rtVsnprintf args strAt l.mem (buf + l.logLen) (c.size - l.logLen) fmt
  let len := l.logLen + BitVec.ofInt 32 r.1
  { mem := r.2.mem, writes := r.2.writes ++ l.writes
    logLen := if len ≤ c.size ∧ -1 < r.1 then len else c.size }

/-- What is kept free behind the message. -/
def UlogConfig.signs : Nat := (if c.usingColor then 4 else 0) + c.newlineSign.length

/-- `overflow check and reserve some space for CSI end sign and newline sign` -/
def reserve (l : Line) : Line :=
  if c.size < l.logLen + BitVec.ofNat 32 c.signs then
    { l with logLen := c.size - BitVec.ofNat 32 c.signs }
  else l

/-- `package newline sign`, and `add CSI end sign` -/
def addSigns (level : Fin 8) (newline : Bool) (l : Line) : Line :=
  addIf c buf (c.color level).isSome csiEnd (addIf c buf newline c.newlineSign l)

/-- The part of `ulog_formater` in front of the message. -/
def ulogHead (level : Fin 8) (tag : Text) (ctx : Context) (mem : Word → UInt8) : Option Line :=
  let l := addColor c buf level ⟨mem, [], 0#32⟩
  let l := if c.outputTime then addTime buf ctx.tick l else l
  (addLevel c buf level l).map fun l =>
    add c buf [chr ':', chr ' '] (addThread c buf ctx (addTag c buf tag l))

/-- `ulog_formater(log_buf, level, tag, newline, format, args)`. It returns `log_len`. -/
def ulogFormater (level : Fin 8) (tag : Text) (newline : Bool) (ctx : Context)
    (args : Nat → Word) (strAt : Word → List UInt8) (fmt : Text) (mem : Word → UInt8) :
    Option Line :=
  (ulogHead c buf level tag ctx mem).map fun l =>
    addSigns c buf level newline (reserve c (addMessage c buf args strAt fmt l))

end

/-! ## Where a step writes -/

/-- How far behind the beginning of the buffer an address is. -/
def off (buf a : Word) : Nat := (a - buf).toNat

/-- Only offsets from `lo` up to `hi` are written. -/
structure WritesIn (buf : Word) (lo hi : Nat) (l l' : Line) : Prop where
  kept : ∀ a ∈ l.writes, a ∈ l'.writes
  new : ∀ a ∈ l'.writes, a ∈ l.writes ∨ lo ≤ off buf a ∧ off buf a < hi
  mem : ∀ a, off buf a < lo ∨ hi ≤ off buf a → l'.mem a = l.mem a

variable {c : UlogConfig} {buf a : Word} {l l' l'' : Line} {lo hi lo' hi' n k : Nat} {src tag : Text}
  {v : UInt8}

theorem off_add (h : off buf a + k < 4294967296) : off buf (a + BitVec.ofNat 32 k) = off buf a + k := by
  unfold off at h ⊢
  rw [show a + BitVec.ofNat 32 k - buf = a - buf + BitVec.ofNat 32 k by
      rw [BitVec.sub_eq_add_neg, BitVec.sub_eq_add_neg, BitVec.add_assoc, BitVec.add_assoc,
        BitVec.add_comm (BitVec.ofNat 32 k)],
    BitVec.toNat_add, BitVec.toNat_ofNat, Nat.add_mod_mod, Nat.mod_eq_of_lt h]

theorem off_next (h : off buf a + 1 < 4294967296) : off buf (a + 1#32) = off buf a + 1 := off_add h

theorem off_self (w : Word) : off buf (buf + w) = w.toNat := by
  rw [off, BitVec.add_comm, BitVec.add_sub_cancel]

theorem off_inj {b : Word} (h : off buf a = off buf b) : a = b := by
  have h := BitVec.eq_of_toNat_eq h
  rw [← BitVec.sub_add_cancel a buf, h, BitVec.sub_add_cancel]

theorem WritesIn.refl (l : Line) : WritesIn buf lo hi l l :=
  ⟨fun _ h => h, fun _ h => .inl h, fun _ _ => rfl⟩

theorem WritesIn.trans (h : WritesIn buf lo hi l l') (h' : WritesIn buf lo hi l' l'') :
    WritesIn buf lo hi l l'' where
  kept a ha := h'.kept a (h.kept a ha)
  new a ha := (h'.new a ha).elim (h.new a) .inr
  mem a ha := (h'.mem a ha).trans (h.mem a ha)

theorem WritesIn.mono (h : WritesIn buf lo hi l l') (hlo : lo' ≤ lo) (hhi : hi ≤ hi') :
    WritesIn buf lo' hi' l l' where
  kept := h.kept
  new a ha := (h.new a ha).imp id fun hb => ⟨Nat.le_trans hlo hb.1, Nat.lt_of_lt_of_le hb.2 hhi⟩
  mem a ha := h.mem a (ha.imp (fun hb => Nat.lt_of_lt_of_le hb hlo) fun hb => Nat.le_trans hhi hb)

/-- `log_len` is not looked at. -/
theorem WritesIn.setLen {w w' : Word} (h : WritesIn buf lo hi l l') :
    WritesIn buf lo hi { l with logLen := w } { l' with logLen := w' } :=
  ⟨h.kept, h.new, h.mem⟩

theorem store_writesIn (ha : off buf a = k) : WritesIn buf k (k + 1) l (l.store a v) where
  kept b hb := List.mem_cons_of_mem a hb
  new b hb := by
    rcases List.mem_cons.mp hb with rfl | hb
    · exact .inr ⟨by omega, by omega⟩
    · exact .inl hb
  mem b hb := by
    refine Function.update_of_ne ?_ ..
    rintro rfl
    omega

@[simp] theorem store_logLen : (l.store a v).logLen = l.logLen := rfl

@[simp] theorem storeAll_logLen {text : Text} : (storeAll a text l).logLen = l.logLen := by
  induction text generalizing a l with
  | nil => rfl
  | cons v text ih => exact ih

theorem storeAll_kept {text : Text} {b : Word} (hb : b ∈ l.writes) :
    b ∈ (storeAll a text l).writes := by
  induction text generalizing a l with
  | nil => exact hb
  | cons v text ih => exact ih (List.mem_cons_of_mem a hb)

theorem storeAll_writesIn (text : Text) (ha : off buf a = k)
    (hk : k + text.length < 4294967296) : WritesIn buf k (k + text.length) l (storeAll a text l) := by
  induction text generalizing a l k with
  | nil => exact .refl l
  | cons v text ih =>
    rw [List.length_cons] at hk ⊢
    have hrest := ih (l := l.store a v) ((off_next (by omega)).trans (congrArg (· + 1) ha)) (by omega)
    exact ((store_writesIn ha).mono (Nat.le_refl k) (by omega)).trans
      (hrest.mono (Nat.le_succ k) (by omega))

/-- What is stored. -/
theorem storeAll_mem {text : Text} {b : Word} {i : Nat} (ha : off buf a = k)
    (hk : k + text.length < 4294967296) (hb : off buf b = k + i) (hv : text[i]? = some v) :
    (storeAll a text l).mem b = v := by
  induction text generalizing a l k i with
  | nil => simp at hv
  | cons u text ih =>
    rw [List.length_cons] at hk
    have hnext : off buf (a + 1#32) = k + 1 := (off_next (by omega)).trans (congrArg (· + 1) ha)
    cases i with
    | zero =>
      obtain rfl : u = v := Option.some.inj hv
      obtain rfl : b = a := off_inj (hb.trans ha.symm)
      have hkeep := (storeAll_writesIn (l := l.store b u) text hnext (by omega)).mem b
        (.inl (by omega))
      exact hkeep.trans (Function.update_self ..)
    | succ i => exact ih hnext (by omega) (by omega) hv

/-- All of it is written. -/
theorem storeAll_written {text : Text} {b : Word} (ha : off buf a = k) (hb : k ≤ off buf b)
    (hb' : off buf b < k + text.length) : b ∈ (storeAll a text l).writes := by
  induction text generalizing a l k with
  | nil =>
    rw [List.length_nil] at hb'
    omega
  | cons v text ih =>
    rw [List.length_cons] at hb'
    by_cases he : off buf b = k
    · obtain rfl : b = a := off_inj (he.trans ha.symm)
      exact storeAll_kept (l := l.store b v) List.mem_cons_self
    · have hlt : off buf b < 4294967296 := (b - buf).isLt
      have hnext : off buf (a + 1#32) = k + 1 := (off_next (by omega)).trans (congrArg (· + 1) ha)
      exact ih hnext (by omega) (by omega)

/-! ## `ulog_strcpy` -/

/-- The buffer is in the address space, with a byte behind it. -/
structure Placed (c : UlogConfig) (buf : Word) : Prop where
  null : buf ≠ 0#32
  room : buf.toNat + c.lineBufSize + 2 < 4294967296

theorem Placed.size (hp : Placed c buf) : c.size.toNat = c.lineBufSize := by
  have := hp.room
  rw [UlogConfig.size, BitVec.toNat_ofNat, Nat.mod_eq_of_lt (by omega)]

theorem ulogStrcpy_spec (hp : Placed c buf) {curLen dst : Word} (hcur : curLen.toNat = k)
    (hdst : off buf dst = k) (hk : k ≤ c.lineBufSize) :
    (ulogStrcpy c curLen dst src l).1.toNat = min src.length (c.lineBufSize - k) ∧
      WritesIn buf k c.lineBufSize l (ulogStrcpy c curLen dst src l).2 ∧
      ∀ b i, off buf b = k + i → k + i < c.lineBufSize → ∀ v, src[i]? = some v →
        (ulogStrcpy c curLen dst src l).2.mem b = v := by
  have hroom := hp.room
  induction src generalizing curLen dst l k with
  | nil => exact ⟨(Nat.zero_min _).symm, .refl l, fun b i _ _ v hv => by simp at hv⟩
  | cons ch src ih =>
    unfold ulogStrcpy
    have hlt : curLen < c.size ↔ k < c.lineBufSize := by rw [BitVec.lt_def, hp.size, hcur]
    split
    · rename_i hgo
      rw [hlt] at hgo
      have hnext : off buf (dst + 1#32) = k + 1 := (off_next (by omega)).trans (congrArg (· + 1) hdst)
      have hcnext : (curLen + 1#32).toNat = k + 1 := by
        rw [BitVec.toNat_add, hcur]
        exact Nat.mod_eq_of_lt (show k + 1 < 4294967296 by omega)
      obtain ⟨hlen, hwr, hmem⟩ := ih (l := l.store dst ch) hcnext hnext hgo
      refine ⟨?_, ?_, ?_⟩
      · have hmin : min (src.length + 1) (c.lineBufSize - k) =
            min src.length (c.lineBufSize - (k + 1)) + 1 := by omega
        rw [BitVec.toNat_add, hlen, List.length_cons, hmin]
        exact Nat.mod_eq_of_lt (show _ + 1 < 4294967296 by omega)
      · exact ((store_writesIn hdst).mono (Nat.le_refl k) hgo).trans
          (hwr.mono (Nat.le_succ k) (Nat.le_refl _))
      · intro b i hb hi v hv
        cases i with
        | zero =>
          obtain rfl : ch = v := Option.some.inj hv
          obtain rfl : b = dst := off_inj (hb.trans hdst.symm)
          exact (hwr.mem b (.inl (by omega))).trans (Function.update_self ..)
        | succ i => exact hmem b i (by omega) (by omega) v hv
    · rename_i hstop
      rw [hlt] at hstop
      refine ⟨?_, .refl l, fun b i hb hi => by omega⟩
      show 0 = _
      omega

/-- The line so far: `n` characters, or as many as there is room for, and all in the buffer. -/
structure Upto (c : UlogConfig) (buf : Word) (n : Nat) (l : Line) : Prop where
  len : l.logLen.toNat = min n c.lineBufSize
  inside : ∀ a ∈ l.writes, off buf a ≤ c.lineBufSize

theorem Upto.extend (h : ∀ a ∈ l.writes, off buf a ≤ c.lineBufSize)
    (hw : WritesIn buf lo hi l l') (hhi : hi ≤ c.lineBufSize + 1)
    (hlen : l'.logLen.toNat = min n c.lineBufSize) : Upto c buf n l' where
  len := hlen
  inside a ha := by
    rcases hw.new a ha with ha | ha
    · exact h a ha
    · omega

theorem add_writesIn (hp : Placed c buf) (hk : l.logLen.toNat = k) (hle : k ≤ c.lineBufSize) :
    WritesIn buf k c.lineBufSize l (add c buf src l) :=
  (ulogStrcpy_spec hp hk (off_self _ ▸ hk) hle).2.1.setLen (w := l.logLen)

theorem add_len (src : Text) (hp : Placed c buf) (hk : l.logLen.toNat = k) (hle : k ≤ c.lineBufSize) :
    (add c buf src l).logLen.toNat = min (k + src.length) c.lineBufSize := by
  have hroom := hp.room
  have hspec : (ulogStrcpy c l.logLen (buf + l.logLen) src l).1.toNat = min src.length (c.lineBufSize - k) :=
    (ulogStrcpy_spec hp hk ((off_self _).trans hk) hle).1
  rw [add, BitVec.toNat_add, hk, hspec, Nat.mod_eq_of_lt (by omega)]
  omega

theorem add_mem {b : Word} {i : Nat} (hp : Placed c buf) (hk : l.logLen.toNat = k)
    (hb : off buf b = k + i) (hi : k + i < c.lineBufSize) (hv : src[i]? = some v) :
    (add c buf src l).mem b = v :=
  (ulogStrcpy_spec hp hk ((off_self _).trans hk) (by omega)).2.2 b i hb hi v hv

theorem Upto.add (hp : Placed c buf) (h : Upto c buf n l) :
    Upto c buf (n + src.length) (add c buf src l) := by
  have hle : min n c.lineBufSize ≤ c.lineBufSize := Nat.min_le_right ..
  refine .extend h.inside (add_writesIn hp h.len hle) (Nat.le_succ _) ?_
  rw [add_len src hp h.len hle]
  omega

theorem Upto.addIf (p : Bool) (src : Text) (hp : Placed c buf) (h : Upto c buf n l) :
    Upto c buf (n + if p then src.length else 0) (addIf c buf p src l) := by
  cases p with
  | true => exact h.add hp
  | false => exact h

theorem add_kept {b : Word} (hb : b ∈ l.writes) : b ∈ (add c buf src l).writes := by
  have hloop : ∀ (src : Text) (curLen dst : Word) (l : Line), b ∈ l.writes →
      b ∈ (ulogStrcpy c curLen dst src l).2.writes := by
    intro src
    induction src with
    | nil => exact fun _ _ _ h => h
    | cons ch src ih =>
      intro curLen dst l h
      unfold ulogStrcpy
      split
      · exact ih _ _ _ (List.mem_cons_of_mem dst h)
      · exact h
  exact hloop src _ _ l hb

/-- A line beyond the end gets nothing more. -/
theorem add_of_gt (hp : Placed c buf) (h : c.lineBufSize ≤ l.logLen.toNat) : add c buf src l = l := by
  have hnone : ulogStrcpy c l.logLen (buf + l.logLen) src l = (0#32, l) := by
    cases src with
    | nil => rfl
    | cons ch src =>
      unfold ulogStrcpy
      rw [if_neg (by rw [BitVec.lt_def, hp.size]; omega)]
  rw [add, hnone]
  simp only [BitVec.add_zero]

/-- The line goes on behind `lo`, in the buffer as long as its length is inside it. -/
structure Grows (c : UlogConfig) (buf : Word) (lo : Nat) (l l' : Line) : Prop where
  kept : ∀ a ∈ l.writes, a ∈ l'.writes
  ok : lo ≤ l.logLen.toNat → l.logLen.toNat ≤ c.lineBufSize → lo ≤ l'.logLen.toNat ∧
    l'.logLen.toNat ≤ c.lineBufSize ∧ WritesIn buf lo (c.lineBufSize + 1) l l'

theorem Grows.refl (l : Line) : Grows c buf lo l l := ⟨fun _ h => h, fun hlo hl => ⟨hlo, hl, .refl l⟩⟩

theorem Grows.trans (h : Grows c buf lo l l') (h' : Grows c buf lo l' l'') : Grows c buf lo l l'' where
  kept a ha := h'.kept a (h.kept a ha)
  ok hlo hl := by
    obtain ⟨hlo', hl', hw⟩ := h.ok hlo hl
    obtain ⟨hlo'', hl'', hw'⟩ := h'.ok hlo' hl'
    exact ⟨hlo'', hl'', hw.trans hw'⟩

theorem Grows.add (hp : Placed c buf) (src : Text) (l : Line) : Grows c buf lo l (add c buf src l) where
  kept _ ha := add_kept ha
  ok hlo hl := by
    have hlen := add_len src hp rfl hl
    refine ⟨by omega, by omega, (add_writesIn hp rfl hl).mono hlo (Nat.le_succ _)⟩

theorem Grows.addIf (hp : Placed c buf) (p : Bool) (src : Text) (l : Line) :
    Grows c buf lo l (addIf c buf p src l) := by
  cases p with
  | true => exact .add hp src l
  | false => exact .refl l

theorem Grows.addTag (hp : Placed c buf) (tag : Text) (l : Line) :
    Grows c buf lo l (addTag c buf tag l) := by
  unfold UlogLine.addTag
  split
  · exact (Grows.addIf hp _ _ l).trans (.add hp tag _)
  · exact .refl l

theorem Grows.addLevel (hp : Placed c buf) {level : Fin 8} (h : addLevel c buf level l = some l') :
    Grows c buf lo l l' := by
  unfold UlogLine.addLevel at h
  split at h
  · obtain ⟨info, -, rfl⟩ := Option.map_eq_some_iff.mp h
    exact (Grows.addIf hp _ _ l).trans (.add hp info _)
  · cases h
    exact .refl l

/-- What is kept free behind the message is behind `lo`. -/
theorem Grows.reserve (hp : Placed c buf) (hlo : lo + c.signs ≤ c.lineBufSize) (l : Line) :
    Grows c buf lo l (reserve c l) := by
  have hroom := hp.room
  have hs : (BitVec.ofNat 32 c.signs).toNat = c.signs := by
    rw [BitVec.toNat_ofNat, Nat.mod_eq_of_lt (by omega)]
  unfold UlogLine.reserve
  split
  · refine ⟨fun _ h => h, fun _ _ => ?_⟩
    have hsub : (c.size - BitVec.ofNat 32 c.signs).toNat = c.lineBufSize - c.signs := by
      rw [BitVec.toNat_sub_of_le (by rw [BitVec.le_def, hp.size, hs]; omega), hp.size, hs]
    refine ⟨?_, ?_, (WritesIn.refl l).setLen (w := l.logLen)⟩
    · rw [hsub]
      omega
    · rw [hsub]
      omega
  · exact .refl l

theorem Grows.addSigns (hp : Placed c buf) (hlo : lo + c.signs ≤ c.lineBufSize) (level : Fin 8)
    (newline : Bool) (l : Line) :
    Grows c buf lo l (addSigns c buf level newline (UlogLine.reserve c l)) :=
  (Grows.reserve hp hlo l).trans ((Grows.addIf hp newline c.newlineSign _).trans (.addIf hp _ csiEnd _))

/-! ## The time -/

/-- `[tick]` -/
def timeText (tick : Word) : Text :=
  chr '[' :: ((ultoaDigits 10 tick.toNat).reverse ++ [chr ']'])

theorem ultoaDigits_ne {rounds n : Nat} : ∀ v ∈ ultoaDigits rounds n, v ≠ 0 := by
  induction rounds generalizing n with
  | zero => exact fun v hv => absurd hv List.not_mem_nil
  | succ rounds ih =>
    intro v hv
    rw [ultoaDigits] at hv
    rcases List.mem_cons.mp hv with rfl | hv
    · intro h0
      have := congrArg UInt8.toNat h0
      rw [UInt8.toNat_ofNat'] at this
      have hz : (0 : UInt8).toNat = 0 := rfl
      omega
    · split at hv
      · exact absurd hv List.not_mem_nil
      · exact ih v hv

theorem timeText_ne (tick : Word) : ∀ v ∈ timeText tick, v ≠ 0 := by
  intro v hv
  rcases List.mem_cons.mp hv with rfl | hv
  · decide
  · rcases List.mem_append.mp hv with hv | hv
    · exact ultoaDigits_ne v (List.mem_reverse.mp hv)
    · rw [List.mem_singleton.mp hv]
      decide

theorem length_timeText (tick : Word) :
    (timeText tick).length = (ultoaDigits 10 tick.toNat).length + 2 := by
  rw [timeText, List.length_cons, List.length_append, List.length_reverse, List.length_singleton]

/-- `rt_strlen` of a text in memory. -/
theorem strlen_eq {mem : Word → UInt8} {text : Text} {rounds : Nat} (hlt : text.length < rounds)
    (hr : rounds ≤ 4294967296) (htext : ∀ i v, text[i]? = some v → mem (a + BitVec.ofNat 32 i) = v)
    (hnull : mem (a + BitVec.ofNat 32 text.length) = 0) (hne : ∀ v ∈ text, v ≠ 0) :
    strlen mem rounds a = BitVec.ofNat 32 text.length := by
  induction text generalizing a rounds with
  | nil =>
    obtain ⟨rounds, rfl⟩ : ∃ r, rounds = r + 1 := ⟨rounds - 1, by omega⟩
    have h0 : mem a = 0 := by
      rw [← hnull]
      exact congrArg mem (BitVec.add_zero a).symm
    rw [strlen, if_pos h0]
    rfl
  | cons v text ih =>
    obtain ⟨rounds, rfl⟩ : ∃ r, rounds = r + 1 := ⟨rounds - 1, by omega⟩
    rw [List.length_cons] at hlt hnull
    have hv : mem a = v := by
      rw [← htext 0 v rfl]
      exact congrArg mem (BitVec.add_zero a).symm
    have hnext : ∀ i, a + 1#32 + BitVec.ofNat 32 i = a + BitVec.ofNat 32 (i + 1) := fun i => by
      rw [BitVec.ofNat_add, BitVec.add_assoc, BitVec.add_comm (1#32)]
    rw [strlen, if_neg (by rw [hv]; exact hne v List.mem_cons_self),
      ih (by omega) (by omega) (fun i u hu => by rw [hnext]; exact htext (i + 1) u hu)
        (by rw [hnext]; exact hnull) fun u hu => hne u (List.mem_cons_of_mem v hu),
      List.length_cons, BitVec.ofNat_add]

theorem addTime_spec (tick : Word) (hp : Placed c buf) (hk : l.logLen.toNat = k)
    (hroom : k + (timeText tick).length ≤ c.lineBufSize) :
    WritesIn buf k (c.lineBufSize + 1) l (addTime buf tick l) ∧
      (addTime buf tick l).logLen.toNat = k + (timeText tick).length := by
  have hsize := hp.room
  rw [length_timeText] at hroom
  -- the addresses, and what is behind each step
  have ha : off buf (buf + l.logLen) = k := (off_self _).trans hk
  have hs : off buf (buf + l.logLen + 1#32) = k + 1 := (off_next (by omega)).trans (congrArg (· + 1) ha)
  have he : off buf (buf + l.logLen + 1#32 + BitVec.ofNat 32 (ultoaDigits 10 tick.toNat).length) =
      k + 1 + (ultoaDigits 10 tick.toNat).length := by rw [off_add (by omega), hs]
  have hn : off buf (buf + l.logLen + 1#32 + BitVec.ofNat 32 (ultoaDigits 10 tick.toNat).length + 1#32) =
      k + 1 + (ultoaDigits 10 tick.toNat).length + 1 := by rw [off_next (by omega), he]
  generalize hd : ultoaDigits 10 tick.toNat = digits at *
  have hrev : digits.reverse.length = digits.length := List.length_reverse
  generalize hp1 : buf + l.logLen + 1#32 = s at *
  generalize hp2 : s + BitVec.ofNat 32 digits.length = e at *
  have hw1 := store_writesIn (l := l) (v := chr '[') ha
  have hw2 := storeAll_writesIn (l := l.store (buf + l.logLen) (chr '[')) digits hs (by omega)
  generalize hl2 : storeAll s digits (l.store (buf + l.logLen) (chr '[')) = l2 at *
  have hw3 := store_writesIn (l := l2) (v := 0) he
  have hw4 := storeAll_writesIn (l := l2.store e 0) digits.reverse hs (by omega)
  have hm4 := fun b i v => @storeAll_mem buf s (l2.store e 0) (k + 1) v digits.reverse b i hs (by omega)
  generalize hl4 : storeAll s digits.reverse (l2.store e 0) = l4 at *
  have hw5 := store_writesIn (l := l4) (v := chr ']') he
  have hw6 := store_writesIn (l := l4.store e (chr ']')) (v := 0) hn
  have heq : addTime buf tick l = { (l4.store e (chr ']')).store (e + 1#32) 0 with
      logLen := l.logLen + strlen ((l4.store e (chr ']')).store (e + 1#32) 0).mem 4294967296
        (buf + l.logLen) } := by
    have hlen : l4.logLen = l.logLen := by
      rw [← hl4, storeAll_logLen, store_logLen, ← hl2, storeAll_logLen, store_logLen]
    simp only [addTime, ulogUltoa, store_logLen, hd, hp1, hp2, hl2, hl4, hlen]
  have htext : timeText tick = chr '[' :: (digits.reverse ++ [chr ']']) := by rw [timeText, hd]
  have htl : (timeText tick).length = digits.length + 2 := by rw [length_timeText, hd]
  -- what is in the buffer from `k` on
  have hmem : ∀ i v, (timeText tick)[i]? = some v →
      ((l4.store e (chr ']')).store (e + 1#32) 0).mem (buf + l.logLen + BitVec.ofNat 32 i) = v := by
    intro i v hv
    have hi : i < digits.length + 2 := htl ▸ (List.getElem?_eq_some_iff.mp hv).1
    have hoff : off buf (buf + l.logLen + BitVec.ofNat 32 i) = k + i := by
      rw [off_add (by omega), ha]
    rw [htext] at hv
    rw [hw6.mem _ (.inl (by omega))]
    rcases Nat.eq_zero_or_pos i with rfl | hpos
    · rw [hw5.mem _ (.inl (by omega)), hw4.mem _ (.inl (by omega)), hw3.mem _ (.inl (by omega)),
        hw2.mem _ (.inl (by omega)), off_inj (hoff.trans ha.symm)]
      exact (Function.update_self ..).trans (Option.some.inj hv)
    · obtain ⟨j, rfl⟩ : ∃ j, i = j + 1 := ⟨i - 1, by omega⟩
      rw [List.getElem?_cons_succ] at hv
      by_cases hj : j < digits.reverse.length
      · rw [List.getElem?_append_left hj] at hv
        rw [hw5.mem _ (.inl (by omega))]
        exact hm4 _ j v (by omega) hv
      · rw [List.getElem?_append_right (by omega), show j - digits.reverse.length = 0 by omega] at hv
        rw [off_inj (hoff.trans (show k + (j + 1) = off buf e by omega))]
        exact (Function.update_self ..).trans (Option.some.inj hv)
  have hnull : ((l4.store e (chr ']')).store (e + 1#32) 0).mem
      (buf + l.logLen + BitVec.ofNat 32 (timeText tick).length) = 0 := by
    have hoff : off buf (buf + l.logLen + BitVec.ofNat 32 (timeText tick).length) =
        off buf (e + 1#32) := by
      rw [off_add (by omega), ha]
      omega
    rw [off_inj hoff]
    exact Function.update_self ..
  rw [heq]
  constructor
  · have hw := (hw1.mono (Nat.le_refl k) (show k + 1 ≤ c.lineBufSize + 1 by omega)).trans <|
      (hw2.mono (by omega) (by omega)).trans <| (hw3.mono (by omega) (by omega)).trans <|
      (hw4.mono (by omega) (by omega)).trans <| (hw5.mono (by omega) (by omega)).trans
      (hw6.mono (by omega) (by omega))
    exact hw.setLen (w := l.logLen)
  · rw [strlen_eq (by omega) (Nat.le_refl _) hmem hnull (timeText_ne tick)]
    show (l.logLen + BitVec.ofNat 32 (timeText tick).length).toNat = _
    rw [BitVec.toNat_add, BitVec.toNat_ofNat, Nat.add_mod_mod, hk, Nat.mod_eq_of_lt (by omega)]

/-- A time for which there is no room is written behind the buffer. -/
theorem time_escapes {tick : Word} (hp : Placed c buf) (hk : l.logLen.toNat = k)
    (hle : k ≤ c.lineBufSize) (hlong : c.lineBufSize < k + (timeText tick).length) :
    buf + BitVec.ofNat 32 (c.lineBufSize + 1) ∈ (addTime buf tick l).writes := by
  have hroom := hp.room
  rw [length_timeText] at hlong
  have ht : off buf (buf + BitVec.ofNat 32 (c.lineBufSize + 1)) = c.lineBufSize + 1 := by
    rw [off_self, BitVec.toNat_ofNat, Nat.mod_eq_of_lt (by omega)]
  have hs : off buf (buf + l.logLen + 1#32) = k + 1 := by
    have ha : off buf (buf + l.logLen) = k := (off_self _).trans hk
    rw [off_next (by omega), ha]
  generalize hp1 : buf + l.logLen + 1#32 = s at *
  -- the digits, the null byte behind them, or the one behind the bracket
  have hcase : c.lineBufSize + 1 < k + 1 + (ultoaDigits 10 tick.toNat).length ∨
      c.lineBufSize + 1 = k + 1 + (ultoaDigits 10 tick.toNat).length ∨
      c.lineBufSize + 1 = k + 1 + (ultoaDigits 10 tick.toNat).length + 1 := by omega
  unfold addTime ulogUltoa
  simp only [store_logLen, storeAll_logLen, hp1]
  rcases hcase with hlt | heq | heq
  · refine List.mem_cons_of_mem _ (List.mem_cons_of_mem _ (storeAll_kept (List.mem_cons_of_mem _ ?_)))
    exact storeAll_written hs (by omega) (by omega)
  · refine List.mem_cons_of_mem _ (List.mem_cons.mpr (.inl (@off_inj buf _ _ ?_)))
    rw [ht, off_add (by omega), hs]
    exact heq
  · refine List.mem_cons.mpr (.inl (@off_inj buf _ _ ?_))
    have he : off buf (s + BitVec.ofNat 32 (ultoaDigits 10 tick.toNat).length) =
        k + 1 + (ultoaDigits 10 tick.toNat).length := by rw [off_add (by omega), hs]
    rw [ht, off_next (by omega), he]
    exact heq

/-! ## The text in front of the message -/

def colorText (c : UlogConfig) (level : Fin 8) : Text := (c.color level).elim [] (csiStart ++ ·)

/-- What stands in front of the thread's name. -/
def frontText (c : UlogConfig) (level : Fin 8) (tag : Text) (tick : Word) : Text :=
  colorText c level ++ (if c.outputTime then timeText tick else []) ++
    (if c.outputLevel then
      (if c.outputTime then [chr ' '] else []) ++ (levelOutputInfo level).getD [] else []) ++
    (if c.outputTag then
      (if !c.outputLevel && c.outputTime then [chr ' '] else []) ++ tag else []) ++
    if c.outputThreadName && (c.outputTime || c.outputLevel || c.outputTag) then [chr ' '] else []

/-- What stands in front of the message. -/
def headText (c : UlogConfig) (level : Fin 8) (tag : Text) (ctx : Context) : Text :=
  frontText c level tag ctx.tick ++
    (if c.outputThreadName then
      if ctx.isr then [chr 'I', chr 'S', chr 'R'] else ctx.name else []) ++ [chr ':', chr ' ']

/-- There is room for the signs of the color, of the level and of a new line. -/
def UlogConfig.Large (c : UlogConfig) : Prop :=
  ∀ level, (colorText c level).length + ((levelOutputInfo level).getD []).length + c.signs ≤
    c.lineBufSize

/-- There is room for the time behind the color. -/
def TimeFits (c : UlogConfig) (level : Fin 8) (tick : Word) : Prop :=
  c.outputTime = true → (colorText c level).length + (timeText tick).length ≤ c.lineBufSize

/-- There is room for the thread's name where it is copied. -/
def NameFits (c : UlogConfig) (level : Fin 8) (tag : Text) (ctx : Context) : Prop :=
  c.outputThreadName = true → ctx.isr = false →
    min (frontText c level tag ctx.tick).length c.lineBufSize + ctx.name.length ≤ c.lineBufSize

instance (c : UlogConfig) : Decidable c.Large := inferInstanceAs (Decidable (∀ _, _ ≤ _))

instance (c : UlogConfig) (level : Fin 8) (tick : Word) : Decidable (TimeFits c level tick) :=
  inferInstanceAs (Decidable (_ → _))

instance (c : UlogConfig) (level : Fin 8) (tag : Text) (ctx : Context) :
    Decidable (NameFits c level tag ctx) := inferInstanceAs (Decidable (_ → _ → _))

variable {level : Fin 8} {ctx : Context} {mem : Word → UInt8}

/-- The color, the time, the level, the tag, and the blank in front of the name. -/
structure FrontOf (c : UlogConfig) (buf : Word) (level : Fin 8) (tag : Text) (ctx : Context)
    (mem : Word → UInt8) (l : Line) : Prop where
  upto : Upto c buf (frontText c level tag ctx.tick).length l
  grows : Grows c buf (colorText c level).length (addColor c buf level ⟨mem, [], 0#32⟩) l
  head : ulogHead c buf level tag ctx mem = some (add c buf [chr ':', chr ' '] <|
    if c.outputThreadName then
      if ctx.isr then add c buf [chr 'I', chr 'S', chr 'R'] l else addName buf ctx.name l
    else l)

theorem Upto.of_length {m : Nat} (h : Upto c buf n l) (he : n = m) : Upto c buf m l := he ▸ h

theorem color_upto (level : Fin 8) (mem : Word → UInt8) (hp : Placed c buf) :
    Upto c buf (colorText c level).length (addColor c buf level ⟨mem, [], 0#32⟩) := by
  have h0 : Upto c buf 0 ⟨mem, [], 0#32⟩ :=
    ⟨(Nat.zero_min _).symm, fun a ha => absurd ha List.not_mem_nil⟩
  unfold colorText addColor
  cases c.color level with
  | none => exact h0
  | some color =>
    exact ((h0.add hp).add hp).of_length (by
      rw [Nat.zero_add]
      exact List.length_append.symm)

theorem Upto.time {tick : Word} (hp : Placed c buf) (h : Upto c buf n l)
    (hroom : n + (timeText tick).length ≤ c.lineBufSize) :
    Upto c buf (n + (timeText tick).length) (addTime buf tick l) := by
  have hlen := h.len
  rw [Nat.min_eq_left (by omega)] at hlen
  obtain ⟨hw, hl⟩ := addTime_spec tick hp hlen hroom
  exact .extend h.inside hw (Nat.le_refl _) (by omega)

theorem Grows.timeIf {tick : Word} (hp : Placed c buf)
    (hroom : c.outputTime = true → l.logLen.toNat + (timeText tick).length ≤ c.lineBufSize) :
    Grows c buf lo l (if c.outputTime then addTime buf tick l else l) := by
  cases hout : c.outputTime with
  | true =>
    obtain ⟨hw, hlen⟩ := addTime_spec tick hp rfl (hroom hout)
    have hbound := hroom hout
    rw [if_pos rfl]
    exact ⟨hw.kept, fun hlo _ => ⟨by omega, by omega, hw.mono hlo (Nat.le_refl _)⟩⟩
  | false => exact .refl l

theorem Upto.timeIf {tick : Word} (hp : Placed c buf) (h : Upto c buf n l)
    (hroom : c.outputTime = true → n + (timeText tick).length ≤ c.lineBufSize) :
    Upto c buf (n + (if c.outputTime then timeText tick else []).length)
      (if c.outputTime then addTime buf tick l else l) := by
  cases hout : c.outputTime with
  | true => exact h.time hp (hroom hout)
  | false => exact h

theorem Upto.addLevel (hp : Placed c buf) (h : Upto c buf n l) (hl : UlogLine.addLevel c buf level l = some l') :
    Upto c buf (n + (if c.outputLevel then (if c.outputTime then [chr ' '] else []) ++
      (levelOutputInfo level).getD [] else []).length) l' := by
  unfold UlogLine.addLevel at hl
  cases hout : c.outputLevel with
  | false =>
    rw [hout] at hl
    cases hl
    exact h
  | true =>
    rw [hout, if_pos rfl] at hl
    obtain ⟨info, hinfo, rfl⟩ := Option.map_eq_some_iff.mp hl
    refine ((h.addIf c.outputTime [chr ' '] hp).add hp).of_length ?_
    rw [if_pos rfl, List.length_append, hinfo, Option.getD_some, Nat.add_assoc]
    cases c.outputTime <;> rfl

theorem Upto.addTag (tag : Text) (hp : Placed c buf) (h : Upto c buf n l) :
    Upto c buf (n + (if c.outputTag then
      (if !c.outputLevel && c.outputTime then [chr ' '] else []) ++ tag else []).length)
      (UlogLine.addTag c buf tag l) := by
  unfold UlogLine.addTag
  cases c.outputTag with
  | false => exact h
  | true =>
    refine ((h.addIf (!c.outputLevel && c.outputTime) [chr ' '] hp).add hp).of_length ?_
    rw [if_pos rfl, List.length_append, Nat.add_assoc]
    cases !c.outputLevel && c.outputTime <;> rfl

theorem exists_front (hp : Placed c buf) (hl : TimeFits c level ctx.tick)
    (h : ulogHead c buf level tag ctx mem = some l') : ∃ l, FrontOf c buf level tag ctx mem l := by
  obtain ⟨l3, hl3, hl'⟩ := Option.map_eq_some_iff.mp h
  have h2 := (color_upto level mem hp).timeIf hp hl
  have h4 := (h2.addLevel hp hl3).addTag tag hp
  have hg : Grows c buf (colorText c level).length (addColor c buf level ⟨mem, [], 0#32⟩)
      (addTag c buf tag l3) := by
    refine ((Grows.timeIf hp fun hout => ?_).trans (.addLevel hp hl3)).trans (.addTag hp tag l3)
    exact (Nat.add_le_add_right ((color_upto level mem hp).len ▸ Nat.min_le_left ..) _).trans (hl hout)
  have hhead : ulogHead c buf level tag ctx mem = some (add c buf [chr ':', chr ' ']
      (addThread c buf ctx (addTag c buf tag l3))) := by
    rw [h, hl']
  unfold addThread at hhead
  cases hname : c.outputThreadName with
  | false =>
    refine ⟨addTag c buf tag l3, h4.of_length ?_, hg, ?_⟩
    · simp only [frontText, hname, List.length_append, Bool.false_and, Bool.false_eq_true, if_false,
        List.length_nil, Nat.add_zero]
    · rw [hhead, hname]
      rfl
  | true =>
    refine ⟨_, (h4.addIf (c.outputTime || c.outputLevel || c.outputTag) [chr ' ']
      hp).of_length ?_, hg.trans (.addIf hp _ _ _), ?_⟩
    · simp only [frontText, hname, List.length_append, Bool.true_and]
      cases c.outputTime || c.outputLevel || c.outputTag <;> rfl
    · rw [hhead, hname]
      rfl

theorem addThread_kept {b : Word} (hb : b ∈ l.writes) : b ∈ (addThread c buf ctx l).writes := by
  unfold addThread addIf
  cases c.outputThreadName with
  | true =>
    rw [if_pos rfl]
    have hblank : b ∈ (if c.outputTime || c.outputLevel || c.outputTag then add c buf [chr ' '] l
        else l).writes := by
      split
      · exact add_kept hb
      · exact hb
    simp only
    split
    · exact add_kept hblank
    · exact storeAll_kept hblank
  | false => exact hb

/-- Nothing takes back what the time wrote. -/
theorem head_time_escapes (hp : Placed c buf) (hl : c.Large) (ht : ¬ TimeFits c level ctx.tick)
    (h : ulogHead c buf level tag ctx mem = some l) :
    buf + BitVec.ofNat 32 (c.lineBufSize + 1) ∈ l.writes := by
  obtain ⟨hout, hlong⟩ := Classical.not_imp.mp ht
  have hlarge := hl level
  have hcolor := (color_upto level mem hp).len
  rw [Nat.min_eq_left (by omega)] at hcolor
  obtain ⟨l3, hl3, rfl⟩ := Option.map_eq_some_iff.mp h
  have hlevel : Grows c buf 0 _ l3 := .addLevel hp hl3
  have htag : Grows c buf 0 l3 _ := .addTag hp tag l3
  refine add_kept (addThread_kept (htag.kept _ (hlevel.kept _ ?_)))
  rw [hout, if_pos rfl]
  exact time_escapes hp hcolor (by omega) (Nat.lt_of_not_le hlong)

/-! ## The message -/

/-- The call of `rt_vsnprintf` writes a byte behind the buffer: its own buffer is too long, and so is
the text. -/
theorem rtVsnprintf_escapes {args : Nat → Word} {strAt : Word → List UInt8} {fmt : Text} {b size' : Word}
    (hp : Placed c buf) (hb : off buf b = k) (hk : k ≤ c.lineBufSize + 1)
    (hsize : c.lineBufSize + 1 < k + size'.toNat)
    (hlong : c.lineBufSize < k + (output args strAt fmt).length) :
    buf + BitVec.ofNat 32 (c.lineBufSize + 1) ∈ (rtVsnprintf args strAt mem b size' fmt).2.writes := by
  have hroom := hp.room
  -- the addresses as numbers
  have hbn : b.toNat = buf.toNat + k := by
    rw [← BitVec.sub_add_cancel b buf, BitVec.toNat_add]
    unfold off at hb
    rw [hb, Nat.mod_eq_of_lt (by omega), Nat.add_comm]
  have ht : (buf + BitVec.ofNat 32 (c.lineBufSize + 1)).toNat = buf.toNat + (c.lineBufSize + 1) :=
    Cursor.toNat_add_ofNat (show _ < 4294967296 by omega)
  have hadd : ∀ i, k + i = c.lineBufSize + 1 →
      b + BitVec.ofNat 32 i = buf + BitVec.ofNat 32 (c.lineBufSize + 1) := by
    intro i hi
    apply BitVec.eq_of_toNat_eq
    rw [Cursor.toNat_add_ofNat (show _ < 4294967296 by omega), ht]
    omega
  have hlim : buf + BitVec.ofNat 32 (c.lineBufSize + 1) < (endOf b size').1 ∧
      0#32 < (endOf b size').2 := by
    rw [BitVec.lt_def, BitVec.lt_def, ht]
    by_cases hw : b.toNat + size'.toNat < 4294967296
    · obtain ⟨he, hend⟩ := endOf_of_lt hw
      rw [he, hend]
      exact ⟨by omega, show 0 < size'.toNat by omega⟩
    · have h0 : b ≠ 0#32 := by
        rintro rfl
        exact hp.null (BitVec.eq_of_toNat_eq (show buf.toNat = 0 by
          have : (0#32).toNat = 0 := rfl
          omega))
      have hlast : lastAddr.toNat = 4294967295 := rfl
      rw [endOf_of_ge h0 (Nat.le_of_not_lt hw), BitVec.toNat_sub_of_le (by rw [BitVec.le_def]; omega),
        hlast]
      exact ⟨by omega, show 0 < _ by omega⟩
  rw [rtVsnprintf_eq]
  generalize output args strAt fmt = text at *
  by_cases hlt : c.lineBufSize + 1 - k < text.length
  · refine mem_terminate_of_mem (Cursor.mem_puts_iff.mpr (.inr ⟨_, hlt, ?_, hlim.1⟩))
    exact (hadd _ (by omega)).symm
  · -- the null byte
    have hpos : (text.foldl (Cursor.put (endOf b size').1) ⟨b, mem, []⟩).pos =
        buf + BitVec.ofNat 32 (c.lineBufSize + 1) := by
      rw [Cursor.puts_pos]
      exact hadd _ (by omega)
    rw [terminate, if_pos hlim.2, hpos, if_pos hlim.1]
    exact List.mem_cons_self

theorem rtVsnprintf_mem_of_notMem {args : Nat → Word} {strAt : Word → List UInt8} {fmt : Text}
    {b size' a : Word} (h : a ∉ (rtVsnprintf args strAt mem b size' fmt).2.writes) :
    (rtVsnprintf args strAt mem b size' fmt).2.mem a = mem a := by
  rw [rtVsnprintf_eq] at h ⊢
  have hputs : a ∉ ((output args strAt fmt).foldl (Cursor.put (endOf b size').1) ⟨b, mem, []⟩).writes :=
    fun hmem => h (mem_terminate_of_mem hmem)
  exact (terminate_mem_of_notMem h).trans (Cursor.puts_mem_of_notMem hputs)

/-- Only the buffer is written, and the length is inside it. -/
structure LineOk (c : UlogConfig) (buf : Word) (l : Line) : Prop where
  inside : ∀ a ∈ l.writes, off buf a ≤ c.lineBufSize
  len : l.logLen.toNat ≤ c.lineBufSize

variable {args : Nat → Word} {strAt : Word → List UInt8} {fmt : Text} {newline : Bool}

theorem addMessage_len (hp : Placed c buf) :
    (addMessage c buf args strAt fmt l).logLen.toNat ≤ c.lineBufSize := by
  unfold addMessage
  simp only
  split
  · rename_i h
    have hle := h.1
    rwa [BitVec.le_def, hp.size] at hle
  · exact Nat.le_of_eq hp.size

/-- The buffer of `rt_vsnprintf` is the rest of the line's. -/
theorem rest_size (hp : Placed c buf) (hk : l.logLen.toNat = k) (hle : k ≤ c.lineBufSize) :
    (c.size - l.logLen).toNat = c.lineBufSize - k := by
  rw [BitVec.toNat_sub_of_le (by rw [BitVec.le_def, hp.size, hk]; exact hle), hp.size, hk]

/-- The message is in the buffer just when its text does not go beyond the address space. -/
theorem message_inside_iff (hp : Placed c buf) (h : Upto c buf n l) :
    (∀ a ∈ (addMessage c buf args strAt fmt l).writes, off buf a ≤ c.lineBufSize) ↔
      Fits (buf + l.logLen) (c.size - l.logLen) (output args strAt fmt).length := by
  have hroom := hp.room
  have hlen := h.len
  have hsize := rest_size hp hlen (Nat.min_le_right ..)
  have hoff : off buf (buf + l.logLen) = min n c.lineBufSize := (off_self _).trans hlen
  have hbn : (buf + l.logLen).toNat = buf.toNat + min n c.lineBufSize := by
    rw [BitVec.toNat_add, hlen, Nat.mod_eq_of_lt (by omega)]
  have h0 : buf ≠ 0#32 := hp.null
  have hb0 : buf.toNat ≠ 0 := fun hb => h0 (BitVec.eq_of_toNat_eq hb)
  constructor
  · intro hin
    by_contra hfit
    refine absurd (hin 0#32 (List.mem_append_left _ ?_)) ?_
    · have hw : (buf + l.logLen).toNat + (c.size - l.logLen).toNat < 4294967296 := by omega
      rw [rtVsnprintf_eq, (endOf_of_lt hw).1]
      refine zero_written (fun hz => hb0 ?_) hw ?_
      · rw [hz] at hbn
        have : (0#32).toNat = 0 := rfl
        omega
      · unfold Fits at hfit
        by_cases hs : c.size - l.logLen = 0#32
        · rw [hs] at hfit
          refine .inl (Nat.lt_of_not_le fun hle => hfit (.inr (.inr ⟨rfl, .inr hle⟩)))
        · by_cases hgt : 4294967296 < (buf + l.logLen).toNat + (output args strAt fmt).length
          · exact .inl hgt
          · refine .inr ⟨?_, hs⟩
            rw [not_or, not_or] at hfit
            have h1 := hfit.1
            have h2 := hfit.2.1
            omega
    · rw [off, BitVec.zero_sub, BitVec.toNat_neg]
      have := buf.isLt
      omega
  · intro hfit a ha
    rcases List.mem_append.mp ha with ha | ha
    · have hin := (bounded_of_fits hfit).inside a ha
      have heq : a = buf + l.logLen + BitVec.ofNat 32 (a - (buf + l.logLen)).toNat := by
        rw [BitVec.ofNat_toNat, BitVec.setWidth_eq, BitVec.add_comm, BitVec.sub_add_cancel]
      rw [heq, off_add (by omega), hoff]
      omega
    · exact h.inside a ha

/-- A message that fits grows the line. -/
theorem Grows.addMessage (hp : Placed c buf)
    (hfit : Fits (buf + l.logLen) (c.size - l.logLen) (output args strAt fmt).length) :
    Grows c buf lo l (addMessage c buf args strAt fmt l) where
  kept _ ha := List.mem_append_right _ ha
  ok hlo hle := by
    have hroom := hp.room
    have hsize := rest_size hp rfl hle
    have hoff : off buf (buf + l.logLen) = l.logLen.toNat := off_self _
    have hin : ∀ a, a ∈ (rtVsnprintf args strAt l.mem (buf + l.logLen) (c.size - l.logLen) fmt).2.writes →
        l.logLen.toNat ≤ off buf a ∧ off buf a < c.lineBufSize := by
      intro a ha
      have hlt := (bounded_of_fits hfit).inside a ha
      rw [hsize] at hlt
      have heq : a = buf + l.logLen + BitVec.ofNat 32 (a - (buf + l.logLen)).toNat := by
        rw [BitVec.ofNat_toNat, BitVec.setWidth_eq, BitVec.add_comm, BitVec.sub_add_cancel]
      rw [heq, off_add (by omega), hoff]
      omega
    refine ⟨?_, addMessage_len hp, fun _ ha => List.mem_append_right _ ha, fun a ha => ?_, fun a ha => ?_⟩
    · -- the length goes up
      have hb : (buf + l.logLen).toNat = buf.toNat + l.logLen.toNat := by
        rw [BitVec.toNat_add, Nat.mod_eq_of_lt (by omega)]
      have hb0 : buf.toNat ≠ 0 := fun hb => hp.null (BitVec.eq_of_toNat_eq hb)
      have hn : l.logLen.toNat + (output args strAt fmt).length < 4294967296 := by
        rcases hfit with hfit | hfit | ⟨-, hnull | hfit⟩
        · omega
        · omega
        · rw [hnull] at hb
          have : (0#32).toNat = 0 := rfl
          omega
        · omega
      unfold UlogLine.addMessage
      simp only
      split
      · rw [rtVsnprintf_eq]
        simp only
        rw [BitVec.ofInt_toInt, BitVec.toNat_add, BitVec.toNat_ofNat, Nat.add_mod_mod,
          Nat.mod_eq_of_lt hn]
        omega
      · show lo ≤ c.size.toNat
        rw [hp.size]
        omega
    · rcases List.mem_append.mp ha with ha | ha
      · have := hin a ha
        exact .inr (by omega)
      · exact .inl ha
    · refine rtVsnprintf_mem_of_notMem fun hmem => ?_
      have := hin a hmem
      omega

/-- Where the name does not fit, the name or the message is written behind the buffer. -/
theorem name_escapes {name : Text} (hp : Placed c buf) (hk : l.logLen.toNat = k)
    (hle : k ≤ c.lineBufSize) (hlong : c.lineBufSize < k + name.length) :
    buf + BitVec.ofNat 32 (c.lineBufSize + 1) ∈ (addMessage c buf args strAt fmt
      (add c buf [chr ':', chr ' '] (addName buf name l))).writes := by
  have hroom := hp.room
  have hoff : off buf (buf + l.logLen) = k := (off_self _).trans hk
  have ht : off buf (buf + BitVec.ofNat 32 (c.lineBufSize + 1)) = c.lineBufSize + 1 := by
    rw [off_self, BitVec.toNat_ofNat, Nat.mod_eq_of_lt (by omega)]
  by_cases hlt : c.lineBufSize + 1 < k + name.length
  · refine List.mem_append_right _ (add_kept ?_)
    exact storeAll_written hoff (by omega) (by omega)
  · have hlen : (addName buf name l).logLen.toNat = c.lineBufSize + 1 := by
      rw [addName, BitVec.toNat_add, BitVec.toNat_ofNat, hk, Nat.add_mod_mod,
        Nat.mod_eq_of_lt (by omega)]
      omega
    rw [add_of_gt hp (by omega)]
    refine List.mem_append_left _ (rtVsnprintf_escapes hp ((off_self _).trans hlen) (Nat.le_refl _) ?_
      (by omega))
    rw [BitVec.toNat_sub, hlen, hp.size]
    omega

/-- The length of the text in front of the message, as far as there is room. -/
def headLen (c : UlogConfig) (level : Fin 8) (tag : Text) (ctx : Context) : Nat :=
  min (headText c level tag ctx).length c.lineBufSize

/-- The signs behind the message are in the buffer. -/
theorem lineOk_signs (hp : Placed c buf) (hl : c.Large) :
    LineOk c buf (addSigns c buf level newline (reserve c (addMessage c buf args strAt fmt l))) ↔
      ∀ a ∈ (addMessage c buf args strAt fmt l).writes, off buf a ≤ c.lineBufSize := by
  have hlarge := hl level
  obtain ⟨-, hlen, hwrites⟩ := (Grows.addSigns hp (by omega) level newline _).ok (Nat.zero_le _)
    (addMessage_len hp : (addMessage c buf args strAt fmt l).logLen.toNat ≤ c.lineBufSize)
  constructor
  · exact fun hr a ha => hr.inside a (hwrites.kept a ha)
  · refine fun hm => ⟨fun a ha => ?_, hlen⟩
    rcases hwrites.new a ha with ha | ha
    · exact hm a ha
    · omega

theorem Grows.addName (name : Text) (hp : Placed c buf)
    (hroom : l.logLen.toNat + name.length ≤ c.lineBufSize) :
    Grows c buf lo l (addName buf name l) ∧
      (addName buf name l).logLen.toNat = l.logLen.toNat + name.length := by
  have hsize := hp.room
  have hat : off buf (buf + l.logLen) = l.logLen.toNat := off_self _
  have hw := storeAll_writesIn (l := l) name hat (by omega)
  have hlen : (UlogLine.addName buf name l).logLen.toNat = l.logLen.toNat + name.length := by
    rw [UlogLine.addName, BitVec.toNat_add, BitVec.toNat_ofNat, Nat.add_mod_mod,
      Nat.mod_eq_of_lt (by omega)]
  refine ⟨⟨hw.kept, fun hlo _ => ⟨by omega, by omega, ?_⟩⟩, hlen⟩
  exact (hw.mono hlo (by omega)).setLen (w := l.logLen)

/-- The line in front of the message, if the name fits. -/
theorem FrontOf.head_ok {f : Line} (hp : Placed c buf) (hf : FrontOf c buf level tag ctx mem f)
    (hfits : NameFits c level tag ctx) (h : ulogHead c buf level tag ctx mem = some l) :
    Upto c buf (headText c level tag ctx).length l ∧
      Grows c buf (colorText c level).length (addColor c buf level ⟨mem, [], 0#32⟩) l := by
  have hmsg := hf.head.symm.trans h
  rw [Option.some.injEq] at hmsg
  rw [← hmsg, headText, List.length_append, List.length_append]
  refine ⟨.add hp ?_, hf.grows.trans (.trans ?_ (.add hp _ _))⟩
  · cases hname : c.outputThreadName with
    | false => exact hf.upto
    | true =>
      cases hisr : ctx.isr with
      | true => exact hf.upto.add hp
      | false =>
        have hroom := hfits hname hisr
        have hk := hf.upto.len
        obtain ⟨hgrows, hlen⟩ := Grows.addName (l := f) ctx.name hp (by omega)
        obtain ⟨-, -, hw⟩ := hgrows.ok (Nat.zero_le _) (by omega)
        refine .extend hf.upto.inside hw (Nat.le_refl _) ?_
        simp only [if_true, Bool.false_eq_true, if_false]
        omega
  · cases hname : c.outputThreadName with
    | false => exact .refl f
    | true =>
      cases hisr : ctx.isr with
      | true => exact .add hp _ f
      | false =>
        have hroom := hfits hname hisr
        exact (Grows.addName _ hp (hf.upto.len ▸ hroom)).1

/-- The words of the call of `rt_vsnprintf`. -/
theorem headLen_eq (hp : Placed c buf) (h : Upto c buf (headText c level tag ctx).length l) :
    l.logLen = BitVec.ofNat 32 (headLen c level tag ctx) ∧
      c.size - l.logLen = BitVec.ofNat 32 (c.lineBufSize - headLen c level tag ctx) := by
  have hroom := hp.room
  have hle : headLen c level tag ctx ≤ c.lineBufSize := Nat.min_le_right ..
  constructor
  · apply BitVec.eq_of_toNat_eq
    rw [BitVec.toNat_ofNat, Nat.mod_eq_of_lt (by omega)]
    exact h.len
  · apply BitVec.eq_of_toNat_eq
    rw [BitVec.toNat_ofNat, Nat.mod_eq_of_lt (by omega)]
    exact rest_size hp h.len hle

/-- A line is in its buffer just when the time and the name fit, and `rt_vsnprintf` stays in the
rest. -/
theorem formater_lineOk_iff {r : Line} (hp : Placed c buf) (hl : c.Large)
    (h : ulogFormater c buf level tag newline ctx args strAt fmt mem = some r) :
    LineOk c buf r ↔ TimeFits c level ctx.tick ∧ NameFits c level tag ctx ∧
      Fits (buf + BitVec.ofNat 32 (headLen c level tag ctx))
        (BitVec.ofNat 32 (c.lineBufSize - headLen c level tag ctx)) (output args strAt fmt).length := by
  obtain ⟨l, hhead, rfl⟩ := Option.map_eq_some_iff.mp h
  have hroom := hp.room
  rw [lineOk_signs hp hl]
  have htarget : ¬ off buf (buf + BitVec.ofNat 32 (c.lineBufSize + 1)) ≤ c.lineBufSize := by
    rw [off_self, BitVec.toNat_ofNat, Nat.mod_eq_of_lt (by omega)]
    omega
  by_cases htime : TimeFits c level ctx.tick
  · rw [and_iff_right htime]
    obtain ⟨f, hf⟩ := exists_front hp htime hhead
    by_cases hname : NameFits c level tag ctx
    · have hupto := (hf.head_ok hp hname hhead).1
      obtain ⟨hlen, hsize⟩ := headLen_eq hp hupto
      rw [and_iff_right hname, message_inside_iff hp hupto, ← hlen, ← hsize]
    · refine ⟨fun hm => (hname fun hout hisr => Nat.le_of_not_lt fun hlong => ?_).elim,
        fun hm => absurd hm.1 hname⟩
      have hmsg := hf.head.symm.trans hhead
      rw [Option.some.injEq, hout, hisr] at hmsg
      refine htarget (hm _ ?_)
      rw [← hmsg]
      exact name_escapes hp hf.upto.len (Nat.min_le_right ..) hlong
  · exact ⟨fun hm => (htarget (hm _ (List.mem_append_right _
      (head_time_escapes hp hl htime hhead)))).elim, fun hm => absurd hm.1 htime⟩

end Tudu.UlogLine
