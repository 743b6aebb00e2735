import TuduOS.Utilities.UlogHexdump

/-!
# Backends (`ulog_output_to_all_backend`)

* `ulogOutputToAllBackend`: the calls of `backend->output`, each as the address and the size of the
  text that it gets. There is no value where `rt_strlen` gets a null pointer.
* `formater_text`: the line, between its color and `CSI_END`.
* `backends_ok_iff`: each backend gets its text as long as only the last one is without colors, and
  the level has one.
-/

namespace Tudu.UlogLine

open Printf

structure Backend where
  supportColor : Bool

section

variable (c : UlogConfig) (level : Fin 8) (isRaw : Bool)

/-- The loop over the list of backends. -/
def outputLoop : List Backend → Word → Word → Option (List (Word × Word))
  | [], _, _ => some []
  | backend :: backends, log, size =>
    if !c.usingColor || backend.supportColor || isRaw then
      (outputLoop backends log size).map ((log, size) :: ·)
    else
      match c.colorOutputInfo level with
      | none => none
      | some color =>
        if color.length ≠ 0 then
          let colorHdrLen := BitVec.ofNat 32 (csiStart.length + color.length)
          let log := log + colorHdrLen
          let outputSize := size - (colorHdrLen + BitVec.ofNat 32 csiEnd.length)
          (outputLoop backends log size).map ((log, outputSize) :: ·)
        else (outputLoop backends log size).map ((log, size) :: ·)

/-- `ulog_output_to_all_backend(level, tag, is_raw, log, size)` -/
def ulogOutputToAllBackend (initOk : Bool) (backends : List Backend) (log size : Word) :
    Option (List (Word × Word)) :=
  if initOk then outputLoop c level isRaw backends log size else some []

end

/-- `n` bytes of the memory. -/
def textAt (mem : Word → UInt8) (a : Word) (n : Nat) : Text :=
  (List.range n).map fun i => mem (a + BitVec.ofNat 32 i)

def endText (c : UlogConfig) (level : Fin 8) : Text := if (c.color level).isSome then csiEnd else []

/-- What is in front of the text, and around it. -/
def colorHead (c : UlogConfig) (level : Fin 8) : Word := BitVec.ofNat 32 (colorText c level).length

def colorSigns (c : UlogConfig) (level : Fin 8) : Word :=
  BitVec.ofNat 32 ((colorText c level).length + (endText c level).length)

/-- What a backend has to get of the line `r`. -/
def Backend.due (c : UlogConfig) (buf : Word) (level : Fin 8) (r : Line) (b : Backend) : Word × Word :=
  if b.supportColor then (buf, r.logLen)
  else (buf + colorHead c level, r.logLen - colorSigns c level)

/-- A backend without colors is the last one, and there is a color. -/
def PlainLast (c : UlogConfig) (level : Fin 8) (bs : List Backend) : Prop :=
  ∀ before b after, bs = before ++ b :: after → b.supportColor = false →
    after = [] ∧ ∃ color, c.color level = some color ∧ color ≠ []

variable {c : UlogConfig} {buf : Word} {level : Fin 8} {tag : Text} {newline : Bool} {ctx : Context}
  {args : Nat → Word} {strAt : Word → List UInt8} {fmt : Text} {mem : Word → UInt8} {l r : Line}
  {k : Nat}

/-! ## The text of a line -/

theorem textAt_eq {a : Word} {text : Text}
    (h : ∀ i v, text[i]? = some v → mem (a + BitVec.ofNat 32 i) = v) : textAt mem a text.length = text := by
  refine List.ext_getElem (by simp [textAt]) fun i h1 h2 => ?_
  simp only [textAt, List.getElem_map, List.getElem_range]
  exact h i text[i] (List.getElem?_eq_getElem h2)

theorem textAt_add (a : Word) (m n : Nat) :
    textAt mem a (m + n) = textAt mem a m ++ textAt mem (a + BitVec.ofNat 32 m) n := by
  have hrest : ∀ i, a + BitVec.ofNat 32 (m + i) = a + BitVec.ofNat 32 m + BitVec.ofNat 32 i := fun i => by
    rw [BitVec.ofNat_add, BitVec.add_assoc]
  simp only [textAt, List.range_add, List.map_append, List.map_map, Function.comp_def, hrest]

/-- The line is in memory. -/
structure Holds (c : UlogConfig) (buf : Word) (text : Text) (l : Line) : Prop where
  len : l.logLen.toNat = text.length
  chars : ∀ b i v, off buf b = i → text[i]? = some v → l.mem b = v

theorem Holds.add {text src : Text} (hp : Placed c buf) (h : Holds c buf text l)
    (hroom : text.length + src.length ≤ c.lineBufSize) :
    Holds c buf (text ++ src) (add c buf src l) where
  len := by
    rw [add_len src hp h.len (by omega), List.length_append]
    omega
  chars b i v hb hv := by
    have hi := (List.getElem?_eq_some_iff.mp hv).1
    rw [List.length_append] at hi
    by_cases hlt : i < text.length
    · rw [List.getElem?_append_left hlt] at hv
      rw [← h.chars b i v hb hv]
      exact (add_writesIn hp h.len (by omega)).mem b (.inl (by omega))
    · rw [List.getElem?_append_right (by omega)] at hv
      exact add_mem hp h.len (by omega) (by omega) hv

theorem addColor_holds (hp : Placed c buf) (hroom : (colorText c level).length ≤ c.lineBufSize) :
    Holds c buf (colorText c level) (addColor c buf level ⟨mem, [], 0#32⟩) := by
  have h0 : Holds c buf [] ⟨mem, [], 0#32⟩ := ⟨rfl, fun _ _ _ _ hv => absurd hv (by simp)⟩
  unfold colorText addColor at *
  cases hc : c.color level with
  | none => exact h0
  | some color =>
    rw [hc] at hroom
    have hlen : csiStart.length + color.length ≤ c.lineBufSize := by
      rw [← List.length_append]
      exact hroom
    have hstart : Holds c buf csiStart (add c buf csiStart ⟨mem, [], 0#32⟩) :=
      h0.add hp (by rw [List.length_nil, Nat.zero_add]; exact Nat.le_trans (Nat.le_add_right _ _) hlen)
    exact hstart.add hp hlen

/-- What is reserved behind the message has room. -/
theorem reserve_room (hp : Placed c buf) (hsum : c.lineBufSize + c.signs < 4294967296)
    (hl : l.logLen.toNat ≤ c.lineBufSize) (hsigns : c.signs ≤ c.lineBufSize) :
    (reserve c l).logLen.toNat + c.signs ≤ c.lineBufSize := by
  have hs : (BitVec.ofNat 32 c.signs).toNat = c.signs := by
    rw [BitVec.toNat_ofNat, Nat.mod_eq_of_lt (by omega)]
  have hadd : (l.logLen + BitVec.ofNat 32 c.signs).toNat = l.logLen.toNat + c.signs := by
    rw [BitVec.toNat_add, hs, Nat.mod_eq_of_lt (by omega)]
  unfold reserve
  split
  · show (c.size - BitVec.ofNat 32 c.signs).toNat + c.signs ≤ _
    rw [BitVec.toNat_sub_of_le (by rw [BitVec.le_def, hp.size, hs]; exact hsigns), hp.size, hs]
    omega
  · rename_i hle
    rw [BitVec.lt_def, hp.size, hadd] at hle
    omega

theorem addIf_len (p : Bool) (src : Text) (hp : Placed c buf) (hl : l.logLen.toNat ≤ c.lineBufSize) :
    (addIf c buf p src l).logLen.toNat =
      min (l.logLen.toNat + if p then src.length else 0) c.lineBufSize := by
  cases p with
  | true => exact add_len src hp rfl hl
  | false => exact (Nat.min_eq_left hl).symm

theorem endText_signs (level : Fin 8) (newline : Bool) :
    (if newline then c.newlineSign.length else 0) + (endText c level).length ≤ c.signs := by
  have hcolor : (endText c level).length ≤ if c.usingColor then 4 else 0 := by
    unfold endText UlogConfig.color
    cases c.usingColor with
    | true =>
      cases c.colorOutputInfo level with
      | none => exact Nat.zero_le _
      | some color => exact Nat.le_refl _
    | false => exact Nat.le_refl _
  unfold UlogConfig.signs
  cases newline with
  | true =>
    rw [if_pos rfl]
    omega
  | false =>
    rw [if_neg Bool.false_ne_true]
    omega

/-- `add CSI end sign` -/
theorem addEnd_spec (hp : Placed c buf)
    (hroom : l.logLen.toNat + (endText c level).length ≤ c.lineBufSize) :
    (addIf c buf (c.color level).isSome csiEnd l).logLen.toNat =
        l.logLen.toNat + (endText c level).length ∧
      (∀ b, off buf b < l.logLen.toNat →
        (addIf c buf (c.color level).isSome csiEnd l).mem b = l.mem b) ∧
      ∀ b i v, off buf b = l.logLen.toNat + i → (endText c level)[i]? = some v →
        (addIf c buf (c.color level).isSome csiEnd l).mem b = v := by
  unfold endText at *
  generalize (c.color level).isSome = p at *
  cases p with
  | false => exact ⟨rfl, fun _ _ => rfl, fun b i v _ hv => absurd hv (by simp)⟩
  | true =>
    rw [if_pos rfl] at hroom ⊢
    refine ⟨?_, fun b hb => (add_writesIn hp rfl (by omega)).mem b (.inl hb), fun b i v hb hv => ?_⟩
    · exact (add_len csiEnd hp rfl (by omega)).trans (Nat.min_eq_left hroom)
    · have hi := (List.getElem?_eq_some_iff.mp hv).1
      exact add_mem hp rfl hb (by omega) hv

/-- A line is its color, a text, and `CSI_END`. -/
theorem formater_text (hp : Placed c buf) (hl : c.Large) (hsum : c.lineBufSize + c.signs < 4294967296)
    (h : ulogFormater c buf level tag newline ctx args strAt fmt mem = some r) (hok : LineOk c buf r) :
    ∃ n, r.logLen.toNat = (colorText c level).length + n + (endText c level).length ∧
      textAt r.mem buf r.logLen.toNat = colorText c level ++
        textAt r.mem (buf + colorHead c level) n ++ endText c level := by
  obtain ⟨htime, hname, hfits⟩ := (formater_lineOk_iff hp hl h).mp hok
  obtain ⟨l, hhead, rfl⟩ := Option.map_eq_some_iff.mp h
  obtain ⟨f, hf⟩ := exists_front hp htime hhead
  obtain ⟨hupto, hgrows⟩ := hf.head_ok hp hname hhead
  obtain ⟨hlen, hsize⟩ := headLen_eq hp hupto
  rw [← hlen, ← hsize] at hfits
  have hlarge := hl level
  -- the color, and what is written behind it
  have hcolor : Holds c buf (colorText c level) (addColor c buf level ⟨mem, [], 0#32⟩) :=
    addColor_holds hp (by omega)
  obtain ⟨-, hmlen, -⟩ := (hgrows.trans (.addMessage hp hfits)).ok (Nat.le_of_eq hcolor.len.symm)
    (by rw [hcolor.len]; omega)
  have hg := (hgrows.trans (.addMessage hp hfits)).trans <|
    (Grows.reserve hp (by omega) _).trans (.addIf hp newline c.newlineSign _)
  obtain ⟨hlo, hhi, hw⟩ := hg.ok (Nat.le_of_eq hcolor.len.symm) (by rw [hcolor.len]; omega)
  have hroom := reserve_room hp hsum hmlen (by omega)
  have hglen := addIf_len newline c.newlineSign hp (Nat.le_trans (Nat.le_add_right ..) hroom)
  rw [addSigns]
  generalize addIf c buf newline c.newlineSign (reserve c _) = g at *
  have hend : g.logLen.toNat + (endText c level).length ≤ c.lineBufSize := by
    have hsigns := endText_signs (c := c) level newline
    omega
  obtain ⟨hrlen, hkeep, hchars⟩ := addEnd_spec hp hend
  refine ⟨g.logLen.toNat - (colorText c level).length, by omega, ?_⟩
  have hctlen := hcolor.len
  rw [hrlen, show g.logLen.toNat + (endText c level).length = (colorText c level).length +
    (g.logLen.toNat - (colorText c level).length) + (endText c level).length by omega, textAt_add,
    textAt_add]
  have hroom' := hp.room
  have hoff : ∀ n, n < 4294967296 → off buf (buf + BitVec.ofNat 32 n) = n := fun n hn => by
    rw [off_self, BitVec.toNat_ofNat, Nat.mod_eq_of_lt hn]
  congr 1
  · refine congrArg (· ++ _) (textAt_eq fun i v hv => ?_)
    have hi := (List.getElem?_eq_some_iff.mp hv).1
    have hb := hoff i (by omega)
    rw [hkeep _ (by omega), hw.mem _ (.inl (by omega))]
    exact hcolor.chars _ i v hb hv
  · refine textAt_eq fun i v hv => ?_
    have hi := (List.getElem?_eq_some_iff.mp hv).1
    refine hchars _ i v ?_ hv
    have hbase := hoff ((colorText c level).length + (g.logLen.toNat - (colorText c level).length))
      (by omega)
    rw [off_add (by omega), hbase]
    omega

/-! ## The backends -/

variable {b : Backend} {bs : List Backend} {color : Text} {log size : Word}

theorem color_eq (h : c.usingColor = true) : c.color level = c.colorOutputInfo level := if_pos h

theorem outputLoop_colored (hb : b.supportColor = true) :
    outputLoop c level false (b :: bs) log size =
      (outputLoop c level false bs log size).map ((log, size) :: ·) := by
  rw [outputLoop, hb, if_pos (by simp)]

/-- A backend without colors moves the text of those behind it. -/
theorem outputLoop_plain (hu : c.usingColor = true) (hb : b.supportColor = false)
    (hc : c.color level = some color) (hne : color ≠ []) :
    outputLoop c level false (b :: bs) log size =
      (outputLoop c level false bs (log + colorHead c level) size).map
        ((log + colorHead c level, size - colorSigns c level) :: ·) := by
  have hhead : colorHead c level = BitVec.ofNat 32 (csiStart.length + color.length) := by
    rw [colorHead, colorText, hc, Option.elim_some, List.length_append]
  have hsigns : colorSigns c level =
      BitVec.ofNat 32 (csiStart.length + color.length) + BitVec.ofNat 32 csiEnd.length := by
    rw [colorSigns, colorText, endText, hc, Option.elim_some, List.length_append, ← BitVec.ofNat_add]
    rfl
  rw [outputLoop, hb, hu, if_neg (by simp), ← color_eq hu, hc, hhead, hsigns]
  exact if_pos fun h0 => hne (List.length_eq_zero_iff.mp h0)

/-- The color is not empty, and shorter than the memory. -/
theorem colorHead_ne (hp : Placed c buf) (hl : c.Large) (hc : c.color level = some color) (a : Word) :
    a + colorHead c level ≠ a := by
  have hroom := hp.room
  have hlarge := hl level
  have hpos : 2 ≤ (colorText c level).length := by
    rw [colorText, hc, Option.elim_some, List.length_append]
    exact Nat.le_add_right ..
  intro h
  have h := congrArg (off a) h
  rw [off_self, colorHead, BitVec.toNat_ofNat, Nat.mod_eq_of_lt (by omega), off, BitVec.sub_self] at h
  exact absurd h (Nat.ne_of_gt (Nat.lt_of_lt_of_le Nat.zero_lt_two hpos))

theorem plainLast_colored (hb : b.supportColor = true) :
    PlainLast c level (b :: bs) ↔ PlainLast c level bs := by
  constructor
  · intro h before b' after hbs hplain
    exact h (b :: before) b' after (by rw [hbs]; rfl) hplain
  · intro h before b' after hbs hplain
    cases before with
    | nil =>
      cases hbs
      rw [hb] at hplain
      cases hplain
    | cons x before =>
      cases hbs
      exact h before b' after rfl hplain

theorem plainLast_plain (hb : b.supportColor = false) :
    PlainLast c level (b :: bs) ↔ bs = [] ∧ ∃ color, c.color level = some color ∧ color ≠ [] := by
  constructor
  · exact fun h => h [] b bs rfl hb
  · rintro ⟨rfl, hcolor⟩ before b' after hbs -
    cases before with
    | nil =>
      cases hbs
      exact ⟨rfl, hcolor⟩
    | cons x before => simp at hbs

/-- The first text of those behind a backend without colors is not theirs. -/
theorem outputLoop_moved (hp : Placed c buf) (hl : c.Large) (hu : c.usingColor = true)
    (hc : c.color level = some color) (hne : color ≠ []) :
    outputLoop c level false bs (buf + colorHead c level) size =
      some (bs.map (Backend.due c buf level r)) ↔ bs = [] := by
  cases bs with
  | nil => exact iff_of_true rfl rfl
  | cons b bs =>
    refine iff_of_false (fun h => ?_) (List.cons_ne_nil b bs)
    cases hb : b.supportColor with
    | true =>
      rw [outputLoop_colored hb] at h
      obtain ⟨xs, -, hxs⟩ := Option.map_eq_some_iff.mp h
      have hfirst := congrArg Prod.fst (List.cons.inj hxs).1
      rw [Backend.due, hb] at hfirst
      exact colorHead_ne hp hl hc buf hfirst
    | false =>
      rw [outputLoop_plain hu hb hc hne] at h
      obtain ⟨xs, -, hxs⟩ := Option.map_eq_some_iff.mp h
      have hfirst := congrArg Prod.fst (List.cons.inj hxs).1
      rw [Backend.due, hb] at hfirst
      exact colorHead_ne hp hl hc (buf + colorHead c level) hfirst

theorem outputLoop_ok_iff (hp : Placed c buf) (hl : c.Large) (hu : c.usingColor = true) :
    outputLoop c level false bs buf r.logLen = some (bs.map (Backend.due c buf level r)) ↔
      PlainLast c level bs := by
  induction bs with
  | nil => exact iff_of_true rfl fun before b after hbs => by simp at hbs
  | cons b bs ih =>
    cases hb : b.supportColor with
    | true =>
      have hdue : Backend.due c buf level r b = (buf, r.logLen) := if_pos hb
      rw [plainLast_colored hb, ← ih, outputLoop_colored hb, List.map_cons, hdue, Option.map_eq_some_iff]
      simp
    | false =>
      have hdue : Backend.due c buf level r b = (buf + colorHead c level, r.logLen - colorSigns c level) :=
        if_neg (by rw [hb]; exact Bool.false_ne_true)
      rw [plainLast_plain hb]
      by_cases hc : ∃ color, c.color level = some color ∧ color ≠ []
      · obtain ⟨color, hcolor, hne⟩ := hc
        have hmoved : outputLoop c level false bs (buf + colorHead c level) r.logLen =
            some (bs.map (Backend.due c buf level r)) ↔ bs = [] := outputLoop_moved hp hl hu hcolor hne
        rw [outputLoop_plain hu hb hcolor hne, List.map_cons, hdue, Option.map_eq_some_iff,
          and_iff_left ⟨color, hcolor, hne⟩, ← hmoved]
        simp
      · refine iff_of_false (fun h => ?_) fun h => hc h.2
        rw [outputLoop, hb, hu, if_neg (by simp), ← color_eq hu] at h
        cases hcolor : c.color level with
        | none =>
          rw [hcolor] at h
          cases h
        | some color =>
          -- no color behind its sign
          have hempty : color = [] := Classical.byContradiction fun hne => hc ⟨color, hcolor, hne⟩
          rw [hcolor, hempty, List.map_cons, hdue] at h
          obtain ⟨xs, -, hxs⟩ := Option.map_eq_some_iff.mp h
          exact colorHead_ne hp hl hcolor buf (congrArg Prod.fst (List.cons.inj hxs).1).symm

/-- Each backend gets its text just when only the last one is without colors. -/
theorem backends_ok_iff (hp : Placed c buf) (hl : c.Large) (hsum : c.lineBufSize + c.signs < 4294967296)
    (hu : c.usingColor = true)
    (h : ulogFormater c buf level tag newline ctx args strAt fmt mem = some r) (bs : List Backend) :
    (LineOk c buf r →
      textAt r.mem buf r.logLen.toNat = colorText c level ++
        textAt r.mem (buf + colorHead c level) (r.logLen - colorSigns c level).toNat ++
        endText c level) ∧
    (ulogOutputToAllBackend c level false true bs buf r.logLen =
        some (bs.map (Backend.due c buf level r)) ↔ PlainLast c level bs) := by
  refine ⟨fun hok => ?_, outputLoop_ok_iff hp hl hu⟩
  obtain ⟨n, hn, htext⟩ := formater_text hp hl hsum h hok
  have hsigns : (r.logLen - colorSigns c level).toNat = n := by
    have hlt := r.logLen.isLt
    have hs : (colorSigns c level).toNat = (colorText c level).length + (endText c level).length := by
      rw [colorSigns, BitVec.toNat_ofNat, Nat.mod_eq_of_lt (by omega)]
    rw [BitVec.toNat_sub_of_le (by rw [BitVec.le_def, hs]; omega), hs]
    omega
  rw [hsigns]
  exact htext

/-- Errors are red. -/
def redLog : UlogConfig where
  lineBufSize := 128
  lineBufSize_ge := boardLog.lineBufSize_ge
  usingColor := true
  outputTime := false
  outputLevel := true
  outputTag := true
  outputThreadName := false
  colorOutputInfo := fun level => if level = 3 then some ("31m".toList.map chr) else none
  newlineSign := [chr '\r', chr '\n']

theorem redLog_placed : Placed redLog 536870912#32 := ⟨by decide, by decide⟩

theorem redLog_line : ∃ r, ulogFormater redLog 536870912#32 3 [chr 'm'] true shell (fun _ => 0#32)
    noStrings ("lost".toList.map chr) zeros = some r := ⟨_, rfl⟩

/-- The console with colors in front of a file without. -/
theorem backends_ok_two : ∃ r, ulogFormater redLog 536870912#32 3 [chr 'm'] true shell (fun _ => 0#32)
      noStrings ("lost".toList.map chr) zeros = some r ∧
    ulogOutputToAllBackend redLog 3 false true [⟨true⟩, ⟨false⟩] 536870912#32 r.logLen =
      some [(536870912#32, r.logLen), (536870912#32 + 5#32, r.logLen - 9#32)] := by
  obtain ⟨r, hr⟩ := redLog_line
  refine ⟨r, hr, ((backends_ok_iff redLog_placed (by decide) (by decide) rfl hr _).2.mpr ?_).trans rfl⟩
  exact (plainLast_colored rfl).mpr ((plainLast_plain rfl).mpr ⟨rfl, _, rfl, by decide⟩)

/-- The console behind the file gets a text that begins behind the color. -/
theorem backends_moved : ∃ r, ulogFormater redLog 536870912#32 3 [chr 'm'] true shell (fun _ => 0#32)
      noStrings ("lost".toList.map chr) zeros = some r ∧
    ulogOutputToAllBackend redLog 3 false true [⟨false⟩, ⟨true⟩] 536870912#32 r.logLen ≠
      some ([⟨false⟩, ⟨true⟩].map (Backend.due redLog 536870912#32 3 r)) := by
  obtain ⟨r, hr⟩ := redLog_line
  refine ⟨r, hr, fun hok => ?_⟩
  have hlast := (outputLoop_ok_iff redLog_placed (by decide) rfl).mp hok
  exact absurd ((plainLast_plain rfl).mp hlast).1 (List.cons_ne_nil _ _)

end Tudu.UlogLine
