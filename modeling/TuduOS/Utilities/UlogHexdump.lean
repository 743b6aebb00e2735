import TuduOS.Lib.Lts
import TuduOS.Utilities.UlogFormat

/-!
# Hexadecimal dumps (`ulog_hexdump`)

One step of the system is one line: a round of the outer loop. `dump_string` is a text, cut as
`rt_snprintf` cuts it.

* `hexHeader`: the line up to the addresses. Behind the first line it is `6 + name_len + 2` blanks
  (`rt_memset`), and `rt_snprintf` may write `ULOG_LINE_BUF_SIZE` bytes from there.
* `HeaderFits`: both are in the buffer.
* `ulog_inside_iff`: exactly then, and as `formater_lineOk_iff` says, only the buffer is written.
-/

namespace Tudu.UlogLine

open Lts Printf

/-- `"%04X-%04X: "` -/
def hexFmt : Text := "%04X-%04X: ".toList.map chr

def noStrings : Word → List UInt8 := fun _ => []

def hexArgs (i width : Word) : Nat → Word := fun n => if n = 0 then i else i + width - 1#32

structure HexState where
  line : Line
  i : Word
  /-- The lengths given to `do_output`. -/
  lens : List Word

section

variable (c : UlogConfig) (buf : Word) (tag : Text) (width size : Word) (data : Word → UInt8)

/-- `package header` -/
def hexPrefix (i : Word) (l : Line) : Line :=
  if i = 0#32 then
    add c buf [chr ':', chr ' '] (add c buf tag (add c buf ("D/HEX ".toList.map chr) l))
  else
    let logLen := 6#32 + BitVec.ofNat 32 tag.length + 2#32
    { storeAll buf (List.replicate logLen.toNat (chr ' ')) l with logLen := logLen }

/-- With `rt_snprintf` of the addresses, and `calculate log length`. -/
def hexHeader (i : Word) (l : Line) : Line :=
  let l := hexPrefix c buf tag i l
  let r := rtVsnprintf (hexArgs i width) noStrings l.mem (buf + l.logLen) c.size hexFmt
  { mem := r.2.mem, writes := r.2.writes ++ l.writes
    logLen := if -1 < r.1 ∧ r.1 ≤ c.lineBufSize then l.logLen + BitVec.ofInt 32 r.1 else c.size }

/-- `rt_snprintf(dump_string, sizeof(dump_string), "%02X ", buf[i + j])` -/
def hexText (b : UInt8) : Text :=
  (output (fun _ => BitVec.ofNat 32 b.toNat) noStrings ("%02X ".toList.map chr)).take 7

/-- `rt_snprintf(dump_string, sizeof(dump_string), "%c", ..)` -/
def charText (b : UInt8) : Text :=
  (output (fun _ => BitVec.ofNat 32 (if 32 ≤ b.toNat ∧ b.toNat < 127 then b.toNat else 46)) noStrings
    ("%c".toList.map chr)).take 7

/-- `dump hex` -/
def dumpHex (i : Word) (l : Line) : Line :=
  (List.range width.toNat).foldl (fun l j =>
    let k := i + BitVec.ofNat 32 j
    addIf c buf ((j + 1) % 8 = 0) [chr ' ']
      (add c buf (if k < size then hexText (data k) else List.replicate 3 (chr ' ')) l)) l

/-- `dump char for hex` -/
def dumpChar (i : Word) (l : Line) : Line :=
  (List.range width.toNat).foldl (fun l j =>
    let k := i + BitVec.ofNat 32 j
    if k < size then add c buf (charText (data k)) l else l) l

/-- `overflow check and reserve some space for newline sign`, and the sign -/
def hexNewline (l : Line) : Line :=
  let newline := BitVec.ofNat 32 c.newlineSign.length
  add c buf c.newlineSign
    (if c.size < l.logLen + newline then { l with logLen := c.size - newline } else l)

/-- A round of the loop. -/
def hexLine (s : HexState) : HexState :=
  let l := hexHeader c buf tag width s.i s.line
  let l := add c buf [chr ' ', chr ' '] (dumpHex c buf width size data s.i l)
  let l := hexNewline c buf (dumpChar c buf width size data s.i l)
  let l := l.store (buf + l.logLen) 0
  { line := l, i := s.i + width, lens := l.logLen :: s.lens }

def hexStep (s : HexState) (_ : Unit) : Option HexState :=
  if s.i < size then some (hexLine c buf tag width size data s) else none

def hexInit (mem : Word → UInt8) : HexState := ⟨⟨mem, [], 0#32⟩, 0#32, []⟩

/-- Only the buffer is written, and the lengths are inside it. -/
structure HexOk (s : HexState) : Prop where
  inside : ∀ a ∈ s.line.writes, off buf a ≤ c.lineBufSize
  lens : ∀ len ∈ s.lens, len.toNat ≤ c.lineBufSize

/-- The length of a line's header in front of the addresses. -/
def prefixLen (s : HexState) : Nat :=
  if s.i = 0#32 then min (s.line.logLen.toNat + (8 + tag.length)) c.lineBufSize else 8 + tag.length

/-- There is room for the header. -/
def HeaderFits (s : HexState) : Prop :=
  prefixLen c tag s + (output (hexArgs s.i width) noStrings hexFmt).length ≤ c.lineBufSize

instance (s : HexState) : Decidable (HeaderFits c tag width s) := inferInstanceAs (Decidable (_ ≤ _))

end

variable {c : UlogConfig} {buf width size i b size' : Word} {tag src text : Text} {data : Word → UInt8}
  {l l' : Line} {s s' : HexState} {k lo hi : Nat} {mem : Word → UInt8} {args : Nat → Word}
  {strAt : Word → List UInt8} {fmt : Text}

/-! ## The header -/

/-- A text that fits is written where it belongs, with its null byte. -/
theorem rtVsnprintf_within (hp : Placed c buf) (hb : off buf b = k)
    (hfit : k + (output args strAt fmt).length ≤ c.lineBufSize)
    (hsize : (output args strAt fmt).length < size'.toNat) :
    ∀ a ∈ (rtVsnprintf args strAt mem b size' fmt).2.writes, off buf a ≤ c.lineBufSize := by
  have hroom := hp.room
  have hbn : b.toNat = buf.toNat + k := by
    rw [← BitVec.sub_add_cancel b buf, BitVec.toNat_add]
    unfold off at hb
    rw [hb, Nat.mod_eq_of_lt (by omega), Nat.add_comm]
  rw [rtVsnprintf_eq]
  generalize output args strAt fmt = text at *
  have hpn : (b + BitVec.ofNat 32 text.length).toNat = b.toNat + text.length :=
    Cursor.toNat_add_ofNat (show _ < 4294967296 by omega)
  -- the end of the text is below the end of the buffer
  have hlim : b + BitVec.ofNat 32 text.length < (endOf b size').1 := by
    rw [BitVec.lt_def, hpn]
    by_cases hw : b.toNat + size'.toNat < 4294967296
    · obtain ⟨he, hend⟩ := endOf_of_lt hw
      rw [he, hend]
      omega
    · have h0 : b ≠ 0#32 := by
        rintro rfl
        exact hp.null (BitVec.eq_of_toNat_eq (show buf.toNat = 0 by
          have : (0#32).toNat = 0 := rfl
          omega))
      have hlast : lastAddr.toNat = 4294967295 := rfl
      rw [endOf_of_ge h0 (Nat.le_of_not_lt hw), hlast]
      omega
  have hputs : ∀ a ∈ (text.foldl (Cursor.put (endOf b size').1) ⟨b, mem, []⟩).writes,
      off buf a ≤ c.lineBufSize := by
    intro a ha
    rcases Cursor.mem_puts_iff.mp ha with ha | ⟨j, hj, rfl, -⟩
    · exact absurd ha List.not_mem_nil
    · show off buf (b + BitVec.ofNat 32 j) ≤ _
      rw [off_add (by omega), hb]
      omega
  intro a ha
  rw [terminate, Cursor.puts_pos, if_pos hlim] at ha
  by_cases hpos : 0#32 < (endOf b size').2
  · rw [if_pos hpos] at ha
    rcases List.mem_cons.mp ha with rfl | ha
    · show off buf (b + BitVec.ofNat 32 text.length) ≤ _
      rw [off_add (by omega), hb]
      omega
    · exact hputs a ha
  · rw [if_neg hpos] at ha
    exact hputs a ha

theorem hexHeader_len (hp : Placed c buf) (hk : (hexPrefix c buf tag i l).logLen.toNat = k)
    (hfit : k + (output (hexArgs i width) noStrings hexFmt).length ≤ c.lineBufSize) :
    (hexHeader c buf tag width i l).logLen.toNat ≤ c.lineBufSize := by
  have hroom := hp.room
  unfold hexHeader
  simp only
  split
  · rw [rtVsnprintf_eq]
    simp only
    rw [BitVec.ofInt_toInt, BitVec.toNat_add, BitVec.toNat_ofNat, hk, Nat.add_mod_mod,
      Nat.mod_eq_of_lt (by omega)]
    exact hfit
  · exact Nat.le_of_eq hp.size

/-- The part of the header in front of the addresses. -/
theorem hexPrefix_spec (hp : Placed c buf) (htag : 8 + tag.length < 4294967296)
    (hl : s.line.logLen.toNat ≤ c.lineBufSize) :
    (hexPrefix c buf tag s.i s.line).logLen.toNat = prefixLen c tag s ∧
      (∀ a ∈ s.line.writes, a ∈ (hexPrefix c buf tag s.i s.line).writes) ∧
      (prefixLen c tag s ≤ c.lineBufSize → WritesIn buf 0 (c.lineBufSize + 1) s.line
        (hexPrefix c buf tag s.i s.line)) ∧
      (c.lineBufSize + 1 < prefixLen c tag s → buf + BitVec.ofNat 32 (c.lineBufSize + 1) ∈
        (hexPrefix c buf tag s.i s.line).writes) := by
  have hroom := hp.room
  unfold hexPrefix prefixLen
  by_cases h0 : s.i = 0#32
  · simp only [if_pos h0]
    -- three texts, as much of them as there is room for
    have h1 := add_len ("D/HEX ".toList.map chr) hp rfl hl
    have h2 := add_len tag hp h1 (Nat.min_le_right ..)
    have h3 := add_len [chr ':', chr ' '] hp h2 (Nat.min_le_right ..)
    have hlen : ("D/HEX ".toList.map chr).length = 6 := rfl
    have hcolon : [chr ':', chr ' '].length = 2 := rfl
    have hw : ∀ (src : Text) (l : Line) (k : Nat), l.logLen.toNat = min k c.lineBufSize →
        WritesIn buf 0 (c.lineBufSize + 1) l (add c buf src l) := fun src l k hk =>
      (add_writesIn hp hk (Nat.min_le_right ..)).mono (Nat.zero_le _) (Nat.le_succ _)
    refine ⟨?_, fun a ha => add_kept (add_kept (add_kept ha)), fun _ => ?_, fun hgt => ?_⟩
    · rw [h3, hcolon, hlen]
      omega
    · exact ((hw _ _ s.line.logLen.toNat (by omega)).trans (hw _ _ _ h1)).trans (hw _ _ _ h2)
    · omega
  · simp only [if_neg h0]
    have hlen : (6#32 + BitVec.ofNat 32 tag.length + 2#32).toNat = 8 + tag.length := by
      rw [BitVec.toNat_add, BitVec.toNat_add, BitVec.toNat_ofNat]
      show ((6 + tag.length % 4294967296) % 4294967296 + 2) % 4294967296 = _
      omega
    have hself : off buf buf = 0 := by
      rw [off, BitVec.sub_self]
      rfl
    rw [hlen]
    refine ⟨rfl, fun a ha => storeAll_kept ha, fun hle => ?_, fun hgt => ?_⟩
    · have hw := storeAll_writesIn (l := s.line) (List.replicate (8 + tag.length) (chr ' ')) hself
        (by rw [List.length_replicate]; omega)
      rw [List.length_replicate] at hw
      exact (hw.mono (Nat.le_refl 0) (by omega)).setLen (w := s.line.logLen)
    · have ht : off buf (buf + BitVec.ofNat 32 (c.lineBufSize + 1)) = c.lineBufSize + 1 := by
        rw [off_self, BitVec.toNat_ofNat, Nat.mod_eq_of_lt (by omega)]
      refine storeAll_written hself (Nat.zero_le _) ?_
      rw [ht, List.length_replicate]
      omega

/-- Only the buffer is written, so far. -/
def Inside (c : UlogConfig) (buf : Word) (l : Line) : Prop := ∀ a ∈ l.writes, off buf a ≤ c.lineBufSize

theorem WritesIn.inside (h : WritesIn buf 0 (c.lineBufSize + 1) l l') :
    Inside c buf l' ↔ Inside c buf l := by
  constructor
  · exact fun hl a ha => hl a (h.kept a ha)
  · intro hl a ha
    rcases h.new a ha with ha | ha
    · exact hl a ha
    · omega

theorem hexHeader_inside (hp : Placed c buf) (htag : 8 + tag.length < 4294967296)
    (hl : s.line.logLen.toNat ≤ c.lineBufSize) :
    Inside c buf (hexHeader c buf tag width s.i s.line) ↔
      Inside c buf s.line ∧ HeaderFits c tag width s := by
  have hroom := hp.room
  have hbuf := c.lineBufSize_ge
  obtain ⟨hlen, hkept, hwr, hbig⟩ := hexPrefix_spec hp htag hl
  have hpre : 2 ≤ prefixLen c tag s := by
    unfold prefixLen
    split <;> omega
  have hoff : off buf (buf + (hexPrefix c buf tag s.i s.line).logLen) = prefixLen c tag s :=
    (off_self _).trans hlen
  have ht : off buf (buf + BitVec.ofNat 32 (c.lineBufSize + 1)) = c.lineBufSize + 1 := by
    rw [off_self, BitVec.toNat_ofNat, Nat.mod_eq_of_lt (by omega)]
  constructor
  · intro hin
    refine ⟨fun a ha => hin a (List.mem_append_right _ (hkept a ha)), Nat.le_of_not_lt fun hlong => ?_⟩
    have hesc : buf + BitVec.ofNat 32 (c.lineBufSize + 1) ∈
        (hexHeader c buf tag width s.i s.line).writes := by
      by_cases hgt : c.lineBufSize + 1 < prefixLen c tag s
      · exact List.mem_append_right _ (hbig hgt)
      · refine List.mem_append_left _ (rtVsnprintf_escapes hp hoff (by omega) ?_ hlong)
        rw [hp.size]
        omega
    have := hin _ hesc
    omega
  · rintro ⟨hin, hfit⟩
    have hfit' := hfit
    unfold HeaderFits at hfit'
    intro a ha
    rcases List.mem_append.mp ha with ha | ha
    · exact rtVsnprintf_within hp hoff hfit' (by rw [hp.size]; omega) a ha
    · exact (hwr (by omega)).inside.mpr hin a ha

/-! ## The rest of the line -/

theorem Grows.foldl {f : Line → Nat → Line} (h : ∀ l j, Grows c buf 0 l (f l j)) (js : List Nat) (l : Line) :
    Grows c buf 0 l (js.foldl f l) := by
  induction js generalizing l with
  | nil => exact .refl l
  | cons j js ih => exact (h l j).trans (ih (f l j))

theorem Grows.dumpHex (hp : Placed c buf) (l : Line) :
    Grows c buf 0 l (dumpHex c buf width size data i l) :=
  .foldl (fun l _ => (Grows.add hp _ l).trans (.addIf hp _ _ _)) _ l

theorem Grows.dumpChar (hp : Placed c buf) (l : Line) :
    Grows c buf 0 l (dumpChar c buf width size data i l) := by
  refine .foldl (fun l j => ?_) _ l
  simp only
  split
  · exact .add hp _ l
  · exact .refl l

theorem Grows.hexNewline (hp : Placed c buf) (hnl : c.newlineSign.length ≤ c.lineBufSize) (l : Line) :
    Grows c buf 0 l (hexNewline c buf l) := by
  have hroom := hp.room
  refine .trans ?_ (.add hp c.newlineSign _)
  split
  · refine ⟨fun _ h => h, fun _ _ => ⟨Nat.zero_le _, ?_, (WritesIn.refl l).setLen (w := l.logLen)⟩⟩
    have hn : (BitVec.ofNat 32 c.newlineSign.length).toNat = c.newlineSign.length := by
      rw [BitVec.toNat_ofNat, Nat.mod_eq_of_lt (by omega)]
    show (c.size - BitVec.ofNat 32 c.newlineSign.length).toNat ≤ _
    rw [BitVec.toNat_sub_of_le (by rw [BitVec.le_def, hp.size, hn]; exact hnl), hp.size]
    omega
  · exact .refl l

/-- The string end sign. -/
theorem Grows.endSign (l : Line) : Grows c buf 0 l (l.store (buf + l.logLen) 0) where
  kept _ ha := List.mem_cons_of_mem _ ha
  ok hlo hl := ⟨hlo, hl, (store_writesIn (off_self l.logLen)).mono (Nat.zero_le _) (Nat.succ_le_succ hl)⟩

/-- Behind the header. -/
theorem hexLine_grows (hp : Placed c buf) (hnl : c.newlineSign.length ≤ c.lineBufSize) :
    Grows c buf 0 (hexHeader c buf tag width s.i s.line) (hexLine c buf tag width size data s).line :=
  (((((Grows.dumpHex hp _).trans (.add hp [chr ' ', chr ' '] _)).trans (.dumpChar hp _)).trans
    (.hexNewline hp hnl _)).trans (.endSign _))

/-! ## Whole dumps -/

/-- A line stays in the buffer just when its header fits. -/
theorem hexLine_ok_iff (hp : Placed c buf) (hnl : c.newlineSign.length ≤ c.lineBufSize)
    (htag : 8 + tag.length < 4294967296) (hl : s.line.logLen.toNat ≤ c.lineBufSize)
    (hs : HexOk c buf s) :
    (HexOk c buf (hexLine c buf tag width size data s) ↔ HeaderFits c tag width s) ∧
      (HeaderFits c tag width s →
        (hexLine c buf tag width size data s).line.logLen.toNat ≤ c.lineBufSize) := by
  have hgrows : Grows c buf 0 (hexHeader c buf tag width s.i s.line)
      (hexLine c buf tag width size data s).line := hexLine_grows hp hnl
  have hhead : Inside c buf (hexHeader c buf tag width s.i s.line) ↔
      Inside c buf s.line ∧ HeaderFits c tag width s := hexHeader_inside hp htag hl
  have hlen (hfit : HeaderFits c tag width s) :=
    hgrows.ok (Nat.zero_le _) (hexHeader_len hp (hexPrefix_spec hp htag hl).1 hfit)
  refine ⟨⟨fun h => ?_, fun hfit => ?_⟩, fun hfit => (hlen hfit).2.1⟩
  · exact (hhead.mp fun a ha => h.inside a (hgrows.kept a ha)).2
  · obtain ⟨-, hle, hw⟩ := hlen hfit
    refine ⟨hw.inside.mpr (hhead.mpr ⟨hs.inside, hfit⟩), fun len hlen => ?_⟩
    rcases List.mem_cons.mp hlen with rfl | hlen
    · exact hle
    · exact hs.lens len hlen

theorem hexStep_some {act : Unit} (h : hexStep c buf tag width size data s act = some s') :
    s' = hexLine c buf tag width size data s := by
  unfold hexStep at h
  split at h
  · exact (Option.some.inj h).symm
  · cases h

theorem hexdump_inside_iff (hp : Placed c buf) (hnl : c.newlineSign.length ≤ c.lineBufSize)
    (htag : 8 + tag.length < 4294967296) {acts : List Unit}
    (hx : exec (hexStep c buf tag width size data) (hexInit mem) acts = some s') :
    Visits (hexStep c buf tag width size data) (HexOk c buf) (hexInit mem) acts ↔
      Along (hexStep c buf tag width size data) (fun s _ => HeaderFits c tag width s) (hexInit mem)
        acts := by
  refine (along_iff_visits (I := fun s => HexOk c buf s ∧ s.line.logLen.toNat ≤ c.lineBufSize)
    (fun s hs => hs.1) ?_ ?_ hx ⟨⟨?_, ?_⟩, Nat.zero_le _⟩).symm
  · intro s act s' hs hfit hstep
    obtain rfl := hexStep_some hstep
    exact ⟨(hexLine_ok_iff hp hnl htag hs.2 hs.1).1.mpr hfit,
      (hexLine_ok_iff hp hnl htag hs.2 hs.1).2 hfit⟩
  · intro s act s' hs hfit hstep
    obtain rfl := hexStep_some hstep
    exact fun h => hfit ((hexLine_ok_iff hp hnl htag hs.2 hs.1).1.mp h)
  · exact fun a ha => absurd ha List.not_mem_nil
  · exact fun len hlen => absurd hlen List.not_mem_nil

/-- What goes to `do_output` is in the buffer, of a message and of a dump. A dump's tag and the buffer
are in memory both. -/
theorem ulog_inside_iff (hp : Placed c buf) (hl : c.Large) :
    (∀ level tag newline ctx args strAt fmt mem r,
      ulogFormater c buf level tag newline ctx args strAt fmt mem = some r →
      (LineOk c buf r ↔ TimeFits c level ctx.tick ∧ NameFits c level tag ctx ∧
        Fits (buf + BitVec.ofNat 32 (headLen c level tag ctx))
          (BitVec.ofNat 32 (c.lineBufSize - headLen c level tag ctx))
          (output args strAt fmt).length)) ∧
    ∀ tag width size data mem lines s', tag.length + c.lineBufSize + 1 < 4294967296 →
      exec (hexStep c buf tag width size data) (hexInit mem) lines = some s' →
      (Visits (hexStep c buf tag width size data) (HexOk c buf) (hexInit mem) lines ↔
        Along (hexStep c buf tag width size data) (fun s _ => HeaderFits c tag width s)
          (hexInit mem) lines) := by
  refine ⟨fun level tag newline ctx args strAt fmt mem r h => formater_lineOk_iff hp hl h,
    fun tag width size data mem lines s' htag hx => ?_⟩
  have hbuf := c.lineBufSize_ge
  have hsigns := hl 0
  have hnl : c.newlineSign.length ≤ c.signs := Nat.le_add_left ..
  exact hexdump_inside_iff hp (by omega) (by omega) hx

/-- Lines of 128 characters, with the level, the tag and the thread's name in front. -/
def boardLog : UlogConfig where
  lineBufSize := 128
  lineBufSize_ge := by decide
  usingColor := false
  outputTime := false
  outputLevel := true
  outputTag := true
  outputThreadName := true
  colorOutputInfo := fun _ => none
  newlineSign := [chr '\r', chr '\n']

def shell : Context := ⟨0#32, false, "tshell".toList.map chr⟩

def zeros : Word → UInt8 := fun _ => 0

theorem ulog_inside_board : (∃ r, ulogFormater boardLog 536870912#32 6 (chr 'm' :: [chr 'm']) true shell
      (fun _ => 0#32) noStrings ("ok".toList.map chr) zeros = some r ∧ LineOk boardLog 536870912#32 r) ∧
    Visits (hexStep boardLog 536870912#32 [chr 'm'] 2#32 2#32 zeros) (HexOk boardLog 536870912#32)
      (hexInit zeros) [()] := by
  have hplaced : Placed boardLog 536870912#32 := ⟨by decide, by decide⟩
  have hiff := ulog_inside_iff hplaced (by decide)
  constructor
  · obtain ⟨r, hr⟩ : ∃ r, ulogFormater boardLog 536870912#32 6 (chr 'm' :: [chr 'm']) true shell
        (fun _ => 0#32) noStrings ("ok".toList.map chr) zeros = some r := ⟨_, rfl⟩
    refine ⟨r, hr, (hiff.1 _ _ _ _ _ _ _ _ r hr).mpr ⟨by decide, by decide, .inl ?_⟩⟩
    decide
  · exact (hiff.2 _ _ _ _ _ _ _ (by decide) rfl).mpr (by decide)

def longTag : Text := List.replicate 128 (chr 'm')

/-- The addresses of a dump do not fit behind a tag of 128 characters. -/
theorem ulog_escapes : ∃ s, exec (hexStep boardLog 536870912#32 longTag 2#32 2#32 zeros) (hexInit zeros)
      [()] = some s ∧ ¬ HexOk boardLog 536870912#32 s := by
  have hlen : longTag.length = 128 := List.length_replicate
  have hpre : prefixLen boardLog longTag (hexInit zeros) = 128 := by
    rw [prefixLen, hlen]
    rfl
  have hout : (output (hexArgs 0#32 2#32) noStrings hexFmt).length = 11 := by decide
  have hlong : ¬ HeaderFits boardLog longTag 2#32 (hexInit zeros) := by
    show ¬ prefixLen boardLog longTag (hexInit zeros) + _ ≤ 128
    rw [hpre, show (hexInit zeros).i = 0#32 from rfl, hout]
    decide
  have hinit : HexOk boardLog 536870912#32 (hexInit zeros) :=
    ⟨fun a ha => absurd ha List.not_mem_nil, fun len hlen => absurd hlen List.not_mem_nil⟩
  refine ⟨_, rfl, fun hok => hlong ?_⟩
  exact (hexLine_ok_iff ⟨by decide, by decide⟩ (by decide) (by rw [hlen]; decide) (Nat.zero_le _)
    hinit).1.mp hok

end Tudu.UlogLine
