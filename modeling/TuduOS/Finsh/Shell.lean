import TuduOS.Lib.Lts
import TuduOS.Lib.Padded

/-!
# The line editor of the shell (`shell.c`)

`receive` is one round of the loop of `finsh_thread_entry`. What it prints is left out.

* `FinshShell`: the line, the cursor, the history, and how far a control sequence has come.
* `Editor`: a line as the text on both sides of the cursor.
* `LineOk`: the shell's line is the editor's. `Shown` is the invariant behind it.
* `editor_ok_iff`: a line of `FINSH_CMD_SIZE - 1` characters is the last one that is kept, and it is
  not ended with a null byte when it is run.

A tab has no next state: `shell_auto_complete` is left out.
-/

namespace Tudu.Shell

open Lts Padded

/-- `FINSH_CMD_SIZE` and `FINSH_HISTORY_LINES` -/
structure ShellConfig where
  cmdSize : Nat
  historyLines : Nat
  cmdSize_pos : 0 < cmdSize
  historyLines_pos : 0 < historyLines

/-- `enum input_stat` -/
inductive InputStat where
  | waitNormal
  | waitSpecKey
  | waitFuncKey
  deriving DecidableEq

/-- `struct finsh_shell` -/
structure FinshShell where
  stat : InputStat
  currentHistory : Nat
  historyCount : Nat
  cmdHistory : List (List UInt8)
  line : List UInt8
  linePosition : Nat
  lineCurpos : Nat
  /-- What the last round handed to `finsh_run_line`. -/
  ran : Option (List UInt8)
  deriving DecidableEq

section

variable (c : ShellConfig) (s : FinshShell)

def shellInit : FinshShell where
  stat := .waitNormal
  currentHistory := 0
  historyCount := 0
  cmdHistory := List.replicate c.historyLines (List.replicate c.cmdSize 0)
  line := List.replicate c.cmdSize 0
  linePosition := 0
  lineCurpos := 0
  ran := none

/-- `memset` of a row, and `memcpy` of the line into it. -/
def historyRow : List UInt8 :=
  s.line.take s.linePosition ++ (List.replicate c.cmdSize 0).drop s.linePosition

/-- The loop that moves the history. -/
def moveHistory (rows : List (List UInt8)) : List (List UInt8) :=
  (List.range (c.historyLines - 1)).foldl (fun rows index => rows.set index (rows.getD (index + 1) []))
    rows

def shellPushHistory : FinshShell :=
  let s' :=
    if s.linePosition ≠ 0 then
      if c.historyLines ≤ s.historyCount then
        if s.cmdHistory[c.historyLines - 1]? ≠ some s.line then
          { s with
            cmdHistory := (moveHistory c s.cmdHistory).set (c.historyLines - 1) (historyRow c s)
            historyCount := c.historyLines }
        else s
      else if s.historyCount = 0 ∨ s.cmdHistory[s.historyCount - 1]? ≠ some s.line then
        { s with cmdHistory := s.cmdHistory.set s.historyCount (historyRow c s)
                 historyCount := s.historyCount + 1 }
      else s
    else s
  { s' with currentHistory := s'.historyCount }

/-- `memcpy` of a row, and `strlen`. -/
def copyHistory : FinshShell :=
  let line := s.cmdHistory.getD s.currentHistory []
  { s with line := line, linePosition := (text 0 line).length, lineCurpos := (text 0 line).length }

def upKey : FinshShell :=
  if 0 < s.currentHistory then copyHistory { s with currentHistory := s.currentHistory - 1 }
  else { s with currentHistory := 0 }

/-- `history_count - 1` is an `int`. -/
def downKey : FinshShell :=
  if s.currentHistory + 1 < s.historyCount then
    copyHistory { s with currentHistory := s.currentHistory + 1 }
  else if s.historyCount ≠ 0 then copyHistory { s with currentHistory := s.historyCount - 1 }
  else s

def leftKey : FinshShell :=
  if s.lineCurpos ≠ 0 then { s with lineCurpos := s.lineCurpos - 1 } else s

def rightKey : FinshShell :=
  if s.lineCurpos < s.linePosition then { s with lineCurpos := s.lineCurpos + 1 } else s

def backspace : FinshShell :=
  if s.lineCurpos = 0 then s
  else
    let position := s.linePosition - 1
    let curpos := s.lineCurpos - 1
    if curpos < position then
      { s with line := (move s.line curpos (curpos + 1) (position - curpos)).set position 0
               linePosition := position, lineCurpos := curpos }
    else { s with line := s.line.set position 0, linePosition := position, lineCurpos := curpos }

/-- `msh`: what `msh_is_used` returns. -/
def endOfLine (msh : Bool) : FinshShell :=
  let s := shellPushHistory c s
  let ran :=
    if msh then none
    else if s.linePosition ≠ 0 then some (s.line.set s.linePosition 59) else none
  { s with ran := ran, line := List.replicate c.cmdSize 0, linePosition := 0, lineCurpos := 0 }

/-- The line behind `normal character`. -/
def insertChar (ch : UInt8) : List UInt8 :=
  if s.lineCurpos < s.linePosition then
    (move s.line (s.lineCurpos + 1) s.lineCurpos (s.linePosition - s.lineCurpos)).set s.lineCurpos ch
  else s.line.set s.linePosition ch

def typeChar (ch : UInt8) : FinshShell :=
  let s := if c.cmdSize ≤ s.linePosition then { s with linePosition := 0 } else s
  let s := { s with line := insertChar s ch, linePosition := s.linePosition + 1
                    lineCurpos := s.lineCurpos + 1 }
  if c.cmdSize ≤ s.linePosition then { s with linePosition := 0, lineCurpos := 0 } else s

/-- The round behind the control keys. -/
def receiveNormal (msh : Bool) (ch : UInt8) : Option FinshShell :=
  if ch = 0 ∨ ch = 0xff then some s
  else if ch = 9 then none
  else if ch = 0x7f ∨ ch = 0x08 then some (backspace s)
  else if ch = 13 ∨ ch = 10 then some (endOfLine c s msh)
  else some (typeChar c s ch)

def receive (msh : Bool) (ch : UInt8) : Option FinshShell :=
  let s := { s with ran := none }
  if ch = 0x1b then some { s with stat := .waitSpecKey }
  else
    match s.stat with
    | .waitSpecKey =>
      if ch = 0x5b then some { s with stat := .waitFuncKey }
      else receiveNormal c { s with stat := .waitNormal } msh ch
    | .waitFuncKey =>
      let s := { s with stat := .waitNormal }
      if ch = 0x41 then some (upKey s)
      else if ch = 0x42 then some (downKey s)
      else if ch = 0x44 then some (leftKey s)
      else if ch = 0x43 then some (rightKey s)
      else receiveNormal c s msh ch
    | .waitNormal => receiveNormal c s msh ch

end

/-! ## The editor -/

inductive Key where
  | char (ch : UInt8)
  | backspace
  | left
  | right
  | up
  | down
  | enter
  deriving DecidableEq

/-- The keys that are one character. -/
def decodeNormal (ch : UInt8) : Option Key :=
  if ch = 0 ∨ ch = 0xff then none
  else if ch = 0x7f ∨ ch = 0x08 then some .backspace
  else if ch = 13 ∨ ch = 10 then some .enter
  else some (.char ch)

/-- The key that a character completes, if any. -/
def decode (stat : InputStat) (ch : UInt8) : InputStat × Option Key :=
  if ch = 0x1b then (.waitSpecKey, none)
  else
    match stat with
    | .waitSpecKey =>
      if ch = 0x5b then (.waitFuncKey, none) else (.waitNormal, decodeNormal ch)
    | .waitFuncKey =>
      (.waitNormal, if ch = 0x41 then some .up else if ch = 0x42 then some .down
        else if ch = 0x44 then some .left else if ch = 0x43 then some .right else decodeNormal ch)
    | .waitNormal => (.waitNormal, decodeNormal ch)

/-- A line with a cursor, and the lines that were entered, the oldest first. -/
structure Editor where
  /-- In front of the cursor, the nearest character first. -/
  before : List UInt8
  behind : List UInt8
  history : List (List UInt8)
  /-- The line of the history that the next one down is behind. -/
  current : Nat
  /-- What the last key gave to run. -/
  entered : Option (List UInt8)
  deriving DecidableEq

namespace Editor

def init : Editor := ⟨[], [], [], 0, none⟩

variable (c : ShellConfig) (e : Editor)

def content : List UInt8 := e.before.reverse ++ e.behind

/-- The `i`-th line of the history, with the cursor at its end. -/
def takeHistory (i : Nat) : Editor :=
  { e with before := (e.history.getD i []).reverse, behind := [], current := i }

/-- A line that is empty or the same as the last one is not kept, nor more lines than there is room
for. -/
def push : List (List UInt8) :=
  if e.content = [] ∨ e.history.getLast? = some e.content then e.history
  else (if e.history.length < c.historyLines then e.history else e.history.drop 1) ++ [e.content]

def press (msh : Bool) : Key → Editor
  | .char ch =>
    if e.content.length + 1 < c.cmdSize then { e with before := ch :: e.before }
    else { e with before := [], behind := [] }
  | .backspace => { e with before := e.before.tail }
  | .left =>
    match e.before with
    | [] => e
    | ch :: before => { e with before := before, behind := ch :: e.behind }
  | .right =>
    match e.behind with
    | [] => e
    | ch :: behind => { e with before := ch :: e.before, behind := behind }
  | .up => if e.current = 0 then e else e.takeHistory (e.current - 1)
  | .down => if e.history = [] then e else e.takeHistory (min (e.current + 1) (e.history.length - 1))
  | .enter =>
    { before := [], behind := [], history := e.push c, current := (e.push c).length
      entered := if msh = true ∨ e.content = [] then none else some e.content }

/-- No key, or one. -/
def receive (msh : Bool) (key : Option Key) : Editor :=
  match key with
  | none => { e with entered := none }
  | some key => { e with entered := none }.press c msh key

end Editor

/-! ## Both at once -/

structure Act where
  msh : Bool
  ch : UInt8
  deriving DecidableEq

/-- One character for the shell, and for the editor. -/
def Act.step (c : ShellConfig) (p : FinshShell × Editor) (a : Act) : Option (FinshShell × Editor) :=
  (receive c p.1 a.msh a.ch).map fun s =>
    (s, p.2.receive c a.msh (decode p.1.stat a.ch).2)

/-- The shell's line is the editor's, with nothing behind it, and what is run is the line that was
entered, with a semicolon and a null byte. -/
structure LineOk (c : ShellConfig) (p : FinshShell × Editor) : Prop where
  curpos : p.1.lineCurpos = p.2.before.length
  curpos_le : p.1.lineCurpos ≤ p.1.linePosition
  position_lt : p.1.linePosition < c.cmdSize
  content : p.1.line.take p.1.linePosition = p.2.content
  cleared : ∀ i, p.1.linePosition ≤ i → i < c.cmdSize → p.1.line[i]? = some 0
  ran : ∀ x, p.2.entered = some x →
    ∃ buf, p.1.ran = some buf ∧ buf.take (x.length + 2) = x ++ [59, 0]
  idle : p.2.entered = none → p.1.ran = none

/-- A key that needs room for one character more. -/
def Key.NeedsRoom (msh : Bool) (position : Nat) : Key → Prop
  | .char _ => True
  | .enter => msh = false ∧ position ≠ 0
  | _ => False

/-- The line has room for it. -/
def Fits (c : ShellConfig) (p : FinshShell × Editor) (a : Act) : Prop :=
  ∀ key, (decode p.1.stat a.ch).2 = some key → key.NeedsRoom a.msh p.1.linePosition →
    p.1.linePosition + 1 < c.cmdSize

instance (msh : Bool) (position : Nat) : ∀ key : Key, Decidable (key.NeedsRoom msh position)
  | .char _ => inferInstanceAs (Decidable True)
  | .enter => inferInstanceAs (Decidable (_ ∧ _))
  | .backspace | .left | .right | .up | .down => inferInstanceAs (Decidable False)

instance (c : ShellConfig) (p : FinshShell × Editor) (a : Act) : Decidable (Fits c p a) :=
  match h : (decode p.1.stat a.ch).2 with
  | none => isTrue fun key hk => by rw [h] at hk; cases hk
  | some key =>
    decidable_of_iff (key.NeedsRoom a.msh p.1.linePosition → p.1.linePosition + 1 < c.cmdSize)
      ⟨fun hr key' hk => by rw [h] at hk; cases hk; exact hr, fun hf => hf key h⟩

/-- The invariant: what the two have in common. -/
structure Shown (c : ShellConfig) (s : FinshShell) (e : Editor) : Prop where
  line : s.line = pad 0 c.cmdSize e.content
  position : s.linePosition = e.content.length
  curpos : s.lineCurpos = e.before.length
  room : e.content.length < c.cmdSize
  typed : 0 ∉ e.content
  rows : s.cmdHistory.length = c.historyLines
  kept : ∃ rest, s.cmdHistory = e.history.map (pad 0 c.cmdSize) ++ rest
  count : s.historyCount = e.history.length
  current : s.currentHistory = e.current
  current_le : e.current ≤ e.history.length
  lines : ∀ x ∈ e.history, 0 ∉ x ∧ x.length < c.cmdSize

variable {c : ShellConfig} {s s' : FinshShell} {e : Editor} {p p' : FinshShell × Editor}
  {stat : InputStat} {ch : UInt8} {key : Key} {msh : Bool} {i : Nat}

/-! ## Keys -/

/-- What the shell does at a key. -/
def pressKey (c : ShellConfig) (s : FinshShell) (msh : Bool) : Key → FinshShell
  | .char ch => typeChar c s ch
  | .backspace => backspace s
  | .left => leftKey s
  | .right => rightKey s
  | .up => upKey s
  | .down => downKey s
  | .enter => endOfLine c s msh

theorem receiveNormal_eq (h : receiveNormal c s msh ch = some s') :
    s' = (decodeNormal ch).elim s (pressKey c s msh) := by
  unfold receiveNormal at h
  unfold decodeNormal
  split at h
  · cases h
    rw [if_pos ‹_›]
    rfl
  rw [if_neg ‹_›]
  split at h
  · cases h
  split at h
  · cases h
    rw [if_pos ‹_›]
    rfl
  rw [if_neg ‹_›]
  split at h
  · cases h
    rw [if_pos ‹_›]
    rfl
  · cases h
    rw [if_neg ‹_›]
    rfl

/-- A character, by the key that it completes. -/
theorem receive_eq (h : receive c s msh ch = some s') :
    s' = (decode s.stat ch).2.elim { s with ran := none, stat := (decode s.stat ch).1 }
      (pressKey c { s with ran := none, stat := (decode s.stat ch).1 } msh) := by
  obtain ⟨stat, currentHistory, historyCount, cmdHistory, line, linePosition, lineCurpos, ran⟩ := s
  unfold receive at h
  unfold decode
  simp only at h ⊢
  split at h
  · cases h
    rw [if_pos ‹_›]
    rfl
  rw [if_neg ‹_›]
  cases stat with
  | waitNormal => exact receiveNormal_eq h
  | waitSpecKey =>
    simp only at h ⊢
    split at h
    · cases h
      rw [if_pos ‹_›]
      rfl
    · rw [if_neg ‹_›]
      exact receiveNormal_eq h
  | waitFuncKey =>
    simp only at h ⊢
    split at h
    · cases h
      rw [if_pos ‹_›]
      rfl
    rw [if_neg ‹_›]
    split at h
    · cases h
      rw [if_pos ‹_›]
      rfl
    rw [if_neg ‹_›]
    split at h
    · cases h
      rw [if_pos ‹_›]
      rfl
    rw [if_neg ‹_›]
    split at h
    · cases h
      rw [if_pos ‹_›]
      rfl
    rw [if_neg ‹_›]
    exact receiveNormal_eq h

theorem decodeNormal_char {x : UInt8} (h : decodeNormal ch = some (.char x)) : x ≠ 0 := by
  unfold decodeNormal at h
  split_ifs at h with h0
  · cases h
  · cases h
  · obtain rfl := Key.char.inj (Option.some.inj h)
    exact fun hx => h0 (.inl hx)

/-- No null byte is typed. -/
theorem decode_char {x : UInt8} (h : (decode stat ch).2 = some (.char x)) : x ≠ 0 := by
  unfold decode at h
  split at h
  · cases h
  cases stat with
  | waitNormal => exact decodeNormal_char h
  | waitSpecKey =>
    simp only at h
    split at h
    · cases h
    · exact decodeNormal_char h
  | waitFuncKey =>
    simp only at h
    split_ifs at h
    · cases h
    · cases h
    · cases h
    · cases h
    · exact decodeNormal_char h

/-! ## What a key keeps -/

namespace Shown

/-- How far a control sequence has come, and what was run, is not looked at. -/
theorem congr {ran : Option (List UInt8)} {entered : Option (List UInt8)} (h : Shown c s e) :
    Shown c { s with stat := stat, ran := ran } { e with entered := entered } :=
  ⟨h.line, h.position, h.curpos, h.room, h.typed, h.rows, h.kept, h.count, h.current,
    h.current_le, h.lines⟩

/-- The line changes, and the history does not. -/
theorem edit {line : List UInt8} {position curpos : Nat} {before behind : List UInt8}
    (h : Shown c s e) (hl : line = pad 0 c.cmdSize (before.reverse ++ behind))
    (hp : position = (before.reverse ++ behind).length) (hc : curpos = before.length)
    (hr : (before.reverse ++ behind).length < c.cmdSize) (ht : 0 ∉ before.reverse ++ behind) :
    Shown c { s with line := line, linePosition := position, lineCurpos := curpos }
      { e with before := before, behind := behind } :=
  ⟨hl, hp, hc, hr, ht, h.rows, h.kept, h.count, h.current, h.current_le, h.lines⟩

theorem leftKey (h : Shown c s e) : Shown c (leftKey s) (e.press c msh .left) := by
  have hcur := h.curpos
  unfold Shell.leftKey Editor.press
  cases hb : e.before with
  | nil =>
    rw [hb] at hcur
    rw [if_neg (by simp [hcur])]
    exact h
  | cons ch before =>
    have hcontent : before.reverse ++ ch :: e.behind = e.content := by
      rw [Editor.content, hb, List.reverse_cons, List.append_assoc, List.singleton_append]
    rw [hb] at hcur
    rw [if_pos (by simp [hcur])]
    refine h.edit ?_ ?_ ?_ ?_ ?_
    · rw [hcontent, h.line]
    · rw [hcontent, h.position]
    · rw [hcur, List.length_cons, Nat.add_sub_cancel]
    · rw [hcontent]
      exact h.room
    · rw [hcontent]
      exact h.typed

theorem rightKey (h : Shown c s e) : Shown c (rightKey s) (e.press c msh .right) := by
  have hcur := h.curpos
  have hpos := h.position
  rw [Editor.content, List.length_append, List.length_reverse] at hpos
  unfold Shell.rightKey Editor.press
  cases hb : e.behind with
  | nil =>
    rw [hb, List.length_nil] at hpos
    rw [if_neg (by omega)]
    exact h
  | cons ch behind =>
    have hcontent : (ch :: e.before).reverse ++ behind = e.content := by
      rw [Editor.content, hb, List.reverse_cons, List.append_assoc, List.singleton_append]
    rw [hb, List.length_cons] at hpos
    rw [if_pos (by omega)]
    refine h.edit ?_ ?_ ?_ ?_ ?_
    · rw [hcontent, h.line]
    · rw [hcontent, h.position]
    · rw [hcur, List.length_cons]
    · rw [hcontent]
      exact h.room
    · rw [hcontent]
      exact h.typed

theorem backspace (h : Shown c s e) : Shown c (backspace s) (e.press c msh .backspace) := by
  have hcur := h.curpos
  have hpos := h.position
  show Shown c (Shell.backspace s) { e with before := e.before.tail }
  unfold Shell.backspace
  cases hb : e.before with
  | nil =>
    rw [hb, List.length_nil] at hcur
    rw [if_pos hcur, List.tail_nil, ← hb]
    exact h
  | cons ch before =>
    have hcontent : e.content = before.reverse ++ ch :: e.behind := by
      rw [Editor.content, hb, List.reverse_cons, List.append_assoc, List.singleton_append]
    have hlen : (before.reverse ++ ch :: e.behind).length =
        (before.reverse ++ e.behind).length + 1 := by
      rw [List.length_append, List.length_append, List.length_cons]
      omega
    have hroom := h.room
    have htyped := h.typed
    rw [hb, List.length_cons] at hcur
    rw [hcontent] at hpos hroom htyped
    have hp : s.linePosition - 1 = (before.reverse ++ e.behind).length := by omega
    have hc : s.lineCurpos - 1 = before.reverse.length := by
      rw [List.length_reverse]
      omega
    have ht : 0 ∉ before.reverse ++ e.behind := fun hm => htyped (by
      rw [List.mem_append] at hm ⊢
      exact hm.imp id (List.mem_cons_of_mem ch))
    rw [if_neg (by omega), List.tail_cons, hp, hc]
    simp only
    -- behind the cursor there are characters that move, or none
    split
    · rename_i hlt
      refine h.edit ?_ rfl List.length_reverse (by omega) ht
      have hk : (before.reverse ++ e.behind).length - before.reverse.length = e.behind.length := by
        rw [List.length_append, Nat.add_sub_cancel_left]
      rw [h.line, hcontent, hk]
      exact erase_pad (by omega)
    · rename_i hge
      refine h.edit ?_ rfl List.length_reverse (by omega) ht
      have hnil : e.behind = [] := by
        rw [List.length_append] at hge
        exact List.eq_nil_of_length_eq_zero (by omega)
      rw [hnil] at hcontent hroom ⊢
      rw [h.line, hcontent, List.append_nil]
      refine unset_pad ?_
      rw [List.length_append, List.length_singleton] at hroom
      omega

/-- The line with one character more, which may be full. -/
theorem insertChar (h : Shown c s e) :
    Shell.insertChar s ch = pad 0 c.cmdSize ((ch :: e.before).reverse ++ e.behind) := by
  have hcur : s.lineCurpos = e.before.reverse.length := by rw [h.curpos, List.length_reverse]
  rw [List.reverse_cons, List.append_assoc, List.singleton_append, Shell.insertChar, h.line]
  split
  · have hk : s.linePosition - e.before.reverse.length = e.behind.length := by
      rw [h.position, Editor.content, List.length_append, Nat.add_sub_cancel_left]
    rw [hcur, hk]
    exact insert_pad h.room
  · rename_i hge
    have hnil : e.behind = [] := by
      rw [h.position, hcur, Editor.content, List.length_append] at hge
      exact List.eq_nil_of_length_eq_zero (by omega)
    have hfull : e.content = e.before.reverse := by rw [Editor.content, hnil, List.append_nil]
    rw [h.position, hfull, hnil]
    exact set_pad (by
      rw [← hfull]
      exact h.room)

theorem typed_char (h : Shown c s e) (hch : ch ≠ 0) : 0 ∉ (ch :: e.before).reverse ++ e.behind := by
  rw [List.reverse_cons, List.append_assoc, List.singleton_append, List.mem_append, List.mem_cons]
  rintro (hm | hm | hm)
  · exact h.typed (List.mem_append_left _ hm)
  · exact hch hm.symm
  · exact h.typed (List.mem_append_right _ hm)

theorem length_char (e : Editor) (ch : UInt8) : ((ch :: e.before).reverse ++ e.behind).length = e.content.length + 1 := by
  rw [Editor.content, List.length_append, List.length_append, List.length_reverse,
    List.length_reverse, List.length_cons]
  omega

/-- Where there is room for one more. -/
theorem typeChar (h : Shown c s e) (hroom : s.linePosition + 1 < c.cmdSize) (hch : ch ≠ 0) :
    Shown c (typeChar c s ch) (e.press c msh (.char ch)) := by
  have hpos := h.position
  have hnot : ¬c.cmdSize ≤ s.linePosition := by omega
  have hnot' : ¬c.cmdSize ≤ s.linePosition + 1 := by omega
  unfold Shell.typeChar Editor.press
  simp only [if_neg hnot, if_neg hnot']
  rw [if_pos (by omega)]
  refine h.edit h.insertChar ?_ ?_ ?_ (h.typed_char hch)
  · rw [length_char, hpos]
  · rw [h.curpos, List.length_cons]
  · rw [length_char]
    omega

end Shown

/-! ## The history -/

theorem moveHistory_eq {rows : List (List UInt8)} (hl : rows.length = c.historyLines) :
    ∃ last, moveHistory c rows = rows.drop 1 ++ [last] := by
  -- the loop so far: the first rows are moved
  have hloop : ∀ k < rows.length,
      (List.range k).foldl (fun rows index => rows.set index (rows.getD (index + 1) [])) rows =
        (rows.drop 1).take k ++ rows.drop k := by
    intro k
    induction k with
    | zero => exact fun _ => rfl
    | succ k ih =>
      intro hk
      have hlen : ((rows.drop 1).take k).length = k := by
        rw [List.length_take, List.length_drop]
        omega
      have hnext : ((rows.drop 1).take k ++ rows.drop k).getD (k + 1) [] = rows[k + 1] := by
        rw [List.getD_eq_getElem?_getD, List.getElem?_append_right (by omega), hlen,
          Nat.add_sub_cancel_left, List.getElem?_drop, List.getElem?_eq_getElem hk]
        rfl
      have htake : (rows.drop 1).take (k + 1) = (rows.drop 1).take k ++ [rows[k + 1]] := by
        rw [List.take_add_one, List.getElem?_drop, Nat.add_comm 1 k, List.getElem?_eq_getElem hk]
        rfl
      rw [List.range_succ, List.foldl_append, ih (by omega), List.foldl_cons, List.foldl_nil, hnext,
        List.set_append_right _ _ (by omega), hlen, Nat.sub_self,
        List.drop_eq_getElem_cons (show k < rows.length by omega), List.set_cons_zero, htake,
        List.append_assoc, List.singleton_append]
  have hpos := c.historyLines_pos
  have hlt : c.historyLines - 1 < rows.length := by omega
  have hend : rows.drop (c.historyLines - 1 + 1) = [] := List.drop_of_length_le (by omega)
  have hall : (rows.drop 1).length ≤ c.historyLines - 1 := by
    rw [List.length_drop]
    omega
  refine ⟨rows[c.historyLines - 1], ?_⟩
  rw [moveHistory, hloop _ hlt, List.drop_eq_getElem_cons hlt, hend, List.take_of_length_le hall]

namespace Shown

theorem historyRow (h : Shown c s e) : historyRow c s = pad 0 c.cmdSize e.content := by
  rw [Shell.historyRow, h.line, h.position, take_pad, List.drop_replicate]
  rfl

/-- The last row of the history is the line just when the last line of it is. -/
theorem last_row (h : Shown c s e) (hpos : 0 < s.historyCount) :
    s.cmdHistory[s.historyCount - 1]? = some s.line ↔ e.history.getLast? = some e.content := by
  obtain ⟨rest, hrest⟩ := h.kept
  have hcount := h.count
  have hlt : s.historyCount - 1 < (e.history.map (pad 0 c.cmdSize)).length := by
    rw [List.length_map]
    omega
  rw [hrest, List.getElem?_append_left hlt, List.getElem?_map, List.getLast?_eq_getElem?, hcount,
    h.line]
  cases hx : e.history[e.history.length - 1]? with
  | none => simp
  | some x =>
    rw [Option.map_some, Option.some.injEq, Option.some.injEq]
    constructor
    · exact pad_inj (h.lines x (List.mem_of_getElem? hx)).1 h.typed
    · exact fun heq => heq ▸ rfl

theorem fits (h : Shown c s e) : s.historyCount ≤ c.historyLines := by
  obtain ⟨rest, hrest⟩ := h.kept
  have hrows := h.rows
  rw [hrest, List.length_append, List.length_map, ← h.count] at hrows
  omega

/-- The history changes, and the line does not. -/
theorem remember {rows : List (List UInt8)} {count : Nat} {history : List (List UInt8)}
    (h : Shown c s e) (hrows : rows.length = c.historyLines)
    (hkept : ∃ rest, rows = history.map (pad 0 c.cmdSize) ++ rest) (hcount : count = history.length)
    (hlines : ∀ x ∈ history, 0 ∉ x ∧ x.length < c.cmdSize) :
    Shown c { s with cmdHistory := rows, historyCount := count, currentHistory := count }
      { e with history := history, current := history.length } :=
  ⟨h.line, h.position, h.curpos, h.room, h.typed, hrows, hkept, hcount, hcount, Nat.le_refl _,
    hlines⟩

theorem shellPushHistory (h : Shown c s e) :
    Shown c (shellPushHistory c s)
      { e with history := e.push c, current := (e.push c).length } := by
  have hfits := h.fits
  have hpos := c.historyLines_pos
  have hline : s.linePosition = 0 ↔ e.content = [] := by
    rw [h.position]
    exact List.length_eq_zero_iff
  -- the history as it is
  have hsame (hpush : e.push c = e.history) : Shown c { s with currentHistory := s.historyCount }
      { e with history := e.push c, current := (e.push c).length } := by
    rw [hpush]
    exact h.remember h.rows h.kept h.count h.lines
  have hlines : ∀ history : List (List UInt8), (∀ x ∈ history, x ∈ e.history) →
      ∀ x ∈ history ++ [e.content], 0 ∉ x ∧ x.length < c.cmdSize := by
    intro history hsub x hx
    rcases List.mem_append.mp hx with hx | hx
    · exact h.lines x (hsub x hx)
    · cases List.mem_singleton.mp hx
      exact ⟨h.typed, h.room⟩
  obtain ⟨rest, hrest⟩ := h.kept
  have hrows := h.rows
  have hmap : (e.history.map (pad 0 c.cmdSize)).length = s.historyCount := by
    rw [List.length_map, h.count]
  unfold Shell.shellPushHistory
  simp only
  split
  · rename_i hne
    rw [Ne, hline] at hne
    split
    · rename_i hfull
      have hcount : s.historyCount = c.historyLines := by omega
      split
      · rename_i hdiff
        have hnot : ¬e.history.getLast? = some e.content := by
          rw [← h.last_row (by omega), hcount]
          exact hdiff
        have hpush : e.push c = e.history.drop 1 ++ [e.content] := by
          rw [Editor.push, if_neg (not_or.mpr ⟨hne, hnot⟩), if_neg (by
            rw [← h.count]
            omega)]
        have hnil : rest = [] := by
          rw [hrest, List.length_append, hmap] at hrows
          exact List.eq_nil_of_length_eq_zero (by omega)
        obtain ⟨last, hlast⟩ := moveHistory_eq hrows
        have hdrop : (s.cmdHistory.drop 1).length = c.historyLines - 1 := by
          rw [List.length_drop, hrows]
        rw [hlast, List.set_append_right _ _ (by omega), hdrop, Nat.sub_self, List.set_cons_zero,
          hpush]
        refine h.remember ?_ ⟨[], ?_⟩ ?_ (hlines _ fun x hx => List.mem_of_mem_drop hx)
        · rw [List.length_append, hdrop, List.length_singleton]
          omega
        · rw [h.historyRow, hrest, hnil, List.append_nil, List.append_nil, List.map_append,
            List.map_drop]
          rfl
        · show c.historyLines = _
          rw [List.length_append, List.length_drop, ← h.count, List.length_singleton]
          omega
      · rename_i hsameRow
        have hlast : e.history.getLast? = some e.content := by
          rw [← h.last_row (by omega), hcount]
          exact Classical.not_not.mp hsameRow
        exact hsame (by rw [Editor.push, if_pos (.inr hlast)])
    · rename_i hroom
      split
      · rename_i hdiff
        have hnot : ¬e.history.getLast? = some e.content := by
          rcases hdiff with h0 | hdiff
          · rw [List.eq_nil_of_length_eq_zero (h.count.symm.trans h0)]
            exact fun hh => by cases hh
          · rcases Nat.eq_zero_or_pos s.historyCount with h0 | h0
            · rw [List.eq_nil_of_length_eq_zero (h.count.symm.trans h0)]
              exact fun hh => by cases hh
            · rw [← h.last_row h0]
              exact hdiff
        have hpush : e.push c = e.history ++ [e.content] := by
          rw [Editor.push, if_neg (not_or.mpr ⟨hne, hnot⟩), if_pos (by
            rw [← h.count]
            omega)]
        obtain ⟨row, rest', rfl⟩ : ∃ row rest', rest = row :: rest' := by
          refine List.exists_cons_of_ne_nil fun hnil => ?_
          rw [hrest, hnil, List.append_nil, hmap] at hrows
          omega
        rw [hpush]
        refine h.remember ?_ ⟨rest', ?_⟩ ?_ (hlines _ fun x hx => hx)
        · rw [List.length_set, hrows]
        · rw [h.historyRow, hrest, List.set_append_right _ _ (by omega), hmap, Nat.sub_self,
            List.set_cons_zero, List.map_append, List.append_assoc]
          rfl
        · rw [List.length_append, h.count, List.length_singleton]
      · rename_i hsameRow
        refine hsame ?_
        rw [not_or, Classical.not_not] at hsameRow
        rw [Editor.push, if_pos (.inr ((h.last_row (by omega)).mp hsameRow.2))]
  · rename_i h0
    refine hsame ?_
    rw [Editor.push, if_pos (.inl (hline.mp (Classical.not_not.mp h0)))]

theorem copyHistory (h : Shown c s e) (hi : i < e.history.length) :
    Shown c (copyHistory { s with currentHistory := i }) (e.takeHistory i) := by
  obtain ⟨rest, hrest⟩ := h.kept
  have hrow : s.cmdHistory.getD i [] = pad 0 c.cmdSize e.history[i] := by
    rw [hrest, List.getD_eq_getElem?_getD, List.getElem?_append_left (by rwa [List.length_map]),
      List.getElem?_map, List.getElem?_eq_getElem hi]
    rfl
  obtain ⟨htyped, hroom⟩ := h.lines _ (List.getElem_mem hi)
  have hget : e.history.getD i [] = e.history[i] := by
    rw [List.getD_eq_getElem?_getD, List.getElem?_eq_getElem hi]
    rfl
  have hcontent : (e.takeHistory i).content = e.history[i] := by
    rw [Editor.content, Editor.takeHistory, hget, List.reverse_reverse, List.append_nil]
  have hlen : (text 0 (pad 0 c.cmdSize e.history[i])).length = e.history[i].length := by
    rw [text_pad htyped]
  unfold Shell.copyHistory
  simp only [hrow, hlen]
  refine ⟨?_, ?_, ?_, ?_, ?_, h.rows, h.kept, h.count, rfl, Nat.le_of_lt hi, h.lines⟩
  · rw [hcontent]
  · rw [hcontent]
  · show _ = ((e.history.getD i []).reverse).length
    rw [hget, List.length_reverse]
  · rwa [hcontent]
  · rwa [hcontent]

theorem upKey (h : Shown c s e) : Shown c (upKey s) (e.press c msh .up) := by
  have hle := h.current_le
  unfold Shell.upKey Editor.press
  rw [h.current]
  split
  · rw [if_neg (by omega)]
    exact h.copyHistory (by omega)
  · rw [if_pos (by omega)]
    exact ⟨h.line, h.position, h.curpos, h.room, h.typed, h.rows, h.kept, h.count, by simp only; omega,
      h.current_le, h.lines⟩

theorem downKey (h : Shown c s e) : Shown c (downKey s) (e.press c msh .down) := by
  have hle := h.current_le
  have hcurrent := h.current
  have hcount := h.count
  have hnil : e.history = [] ↔ s.historyCount = 0 := by
    rw [hcount]
    exact List.length_eq_zero_iff.symm
  show Shown c (Shell.downKey s)
    (if e.history = [] then e else e.takeHistory (min (e.current + 1) (e.history.length - 1)))
  unfold Shell.downKey
  split
  · rw [if_neg (mt hnil.mp (by omega)), Nat.min_eq_left (by omega), hcurrent]
    exact h.copyHistory (by omega)
  · split
    · rw [if_neg (mt hnil.mp (by omega)), Nat.min_eq_right (by omega), ← hcount]
      exact h.copyHistory (by omega)
    · rw [if_pos (hnil.mpr (by omega))]
      exact h

theorem endOfLine (h : Shown c s e) : Shown c (endOfLine c s msh) (e.press c msh .enter) := by
  have hp := h.shellPushHistory
  exact ⟨rfl, rfl, rfl, c.cmdSize_pos, List.not_mem_nil, hp.rows, hp.kept, hp.count, hp.current,
    hp.current_le, hp.lines⟩

/-- A key for which there is room. -/
theorem pressKey (h : Shown c s e)
    (hfit : key.NeedsRoom msh s.linePosition → s.linePosition + 1 < c.cmdSize)
    (hch : ∀ x, key = .char x → x ≠ 0) : Shown c (pressKey c s msh key) (e.press c msh key) := by
  cases key with
  | char ch => exact h.typeChar (hfit trivial) (hch ch rfl)
  | backspace => exact h.backspace
  | left => exact h.leftKey
  | right => exact h.rightKey
  | up => exact h.upKey
  | down => exact h.downKey
  | enter => exact h.endOfLine

end Shown

/-! ## What is run -/

theorem shellPushHistory_line : (shellPushHistory c s).line = s.line ∧
    (shellPushHistory c s).linePosition = s.linePosition := by
  unfold shellPushHistory
  simp only
  split
  · split
    · split <;> exact ⟨rfl, rfl⟩
    · split <;> exact ⟨rfl, rfl⟩
  · exact ⟨rfl, rfl⟩

/-- Only an entered line is run. -/
theorem pressKey_ran (hk : key ≠ .enter) : (pressKey c s msh key).ran = s.ran := by
  cases key with
  | char ch =>
    show (Shell.typeChar c s ch).ran = s.ran
    unfold Shell.typeChar
    simp only
    split <;> split <;> rfl
  | backspace =>
    show (Shell.backspace s).ran = s.ran
    unfold Shell.backspace
    simp only
    split
    · rfl
    · split <;> rfl
  | left =>
    show (Shell.leftKey s).ran = s.ran
    unfold Shell.leftKey
    split <;> rfl
  | right =>
    show (Shell.rightKey s).ran = s.ran
    unfold Shell.rightKey
    split <;> rfl
  | up =>
    show (Shell.upKey s).ran = s.ran
    unfold Shell.upKey
    split <;> rfl
  | down =>
    show (Shell.downKey s).ran = s.ran
    unfold Shell.downKey
    split
    · rfl
    · split <;> rfl
  | enter => exact absurd rfl hk

theorem press_entered (hk : key ≠ .enter) : (e.press c msh key).entered = e.entered := by
  cases key with
  | char _ | left | right | up | down =>
    unfold Editor.press
    simp only
    split <;> rfl
  | backspace => rfl
  | enter => exact absurd rfl hk

theorem endOfLine_ran (msh : Bool) (h : Shown c s e) : (endOfLine c s msh).ran =
    (e.press c msh .enter).entered.map fun x => (pad 0 c.cmdSize x).set x.length 59 := by
  unfold endOfLine Editor.press
  simp only [shellPushHistory_line]
  cases msh with
  | true => rfl
  | false =>
    by_cases h0 : e.content = []
    · have hpos : s.linePosition = 0 := by rw [h.position, h0, List.length_nil]
      rw [if_neg Bool.false_ne_true, if_neg (by simp [hpos]), if_pos (.inr h0)]
      rfl
    · have hpos : s.linePosition ≠ 0 := by
        rw [h.position]
        exact fun hl => h0 (List.eq_nil_of_length_eq_zero hl)
      rw [if_neg Bool.false_ne_true, if_pos hpos, if_neg (by simp [h0]), h.line, h.position]
      rfl

/-- There is a null byte behind the semicolon, or the line is too long. -/
theorem take_run {x : List UInt8} (hx : x.length < c.cmdSize) :
    ((pad 0 c.cmdSize x).set x.length 59).take (x.length + 2) = x ++ [59, 0] ↔
      x.length + 1 < c.cmdSize := by
  have hlen : (x ++ [59]).length = x.length + 1 := by
    rw [List.length_append, List.length_singleton]
  rw [set_pad hx]
  constructor
  · intro h
    have hl := congrArg List.length h
    rw [List.length_take, length_pad (by omega), List.length_append] at hl
    exact Nat.lt_of_not_le fun hle => by
      rw [Nat.min_eq_right (by omega)] at hl
      simp only [List.length_cons, List.length_nil] at hl
      omega
  · intro h
    have hz : List.replicate (c.cmdSize - (x ++ [59]).length) (0 : UInt8) =
        0 :: List.replicate (c.cmdSize - (x.length + 2)) 0 := by
      rw [hlen, show c.cmdSize - (x.length + 1) = c.cmdSize - (x.length + 2) + 1 by omega,
        List.replicate_succ]
    rw [pad, hz, show x.length + 2 = (x ++ [59]).length + 1 by omega, List.take_length_add_append,
      List.take_succ_cons, List.take_zero, List.append_assoc, List.singleton_append]

/-! ## Whole runs -/

/-- The invariant of both, with what the last round ran. -/
structure Together (c : ShellConfig) (p : FinshShell × Editor) : Prop where
  shown : Shown c p.1 p.2
  ran : p.1.ran = p.2.entered.map fun x => (pad 0 c.cmdSize x).set x.length 59
  short : ∀ x, p.2.entered = some x → x.length + 1 < c.cmdSize

theorem Together.ok (h : Together c p) : LineOk c p where
  curpos := h.shown.curpos
  curpos_le := by
    rw [h.shown.curpos, h.shown.position, Editor.content, List.length_append, List.length_reverse]
    omega
  position_lt := by
    rw [h.shown.position]
    exact h.shown.room
  content := by
    rw [h.shown.line, h.shown.position, take_pad]
  cleared := by
    intro i hi hlt
    rw [h.shown.position] at hi
    rw [h.shown.line]
    exact getElem?_pad hi hlt
  ran := by
    intro x hx
    have hshort := h.short x hx
    refine ⟨_, by rw [h.ran, hx]; rfl, (take_run (by omega)).mpr hshort⟩
  idle := by
    intro hx
    rw [h.ran, hx]
    rfl

theorem together_init (c : ShellConfig) : Together c (shellInit c, Editor.init) where
  shown := ⟨rfl, rfl, rfl, c.cmdSize_pos, List.not_mem_nil, List.length_replicate ..,
    ⟨_, rfl⟩, rfl, rfl, Nat.le_refl 0, fun x hx => absurd hx List.not_mem_nil⟩
  ran := rfl
  short := fun x hx => by cases hx

/-- One character for which the line has room. -/
theorem Together.step {a : Act} (h : Together c p) (hfit : Fits c p a)
    (hs : a.step c p = some p') : Together c p' := by
  obtain ⟨s', hr, rfl⟩ := Option.map_eq_some_iff.mp hs
  have hr' := receive_eq hr
  cases hd : (decode p.1.stat a.ch).2 with
  | none =>
    rw [hd] at hr'
    subst hr'
    exact ⟨h.shown.congr, rfl, fun x hx => by cases hx⟩
  | some key =>
    rw [hd] at hr'
    subst hr'
    have hch : ∀ x, key = .char x → x ≠ 0 := fun x hx => decode_char (hx ▸ hd)
    have hshown : Shown c { p.1 with ran := none, stat := (decode p.1.stat a.ch).1 }
      { p.2 with entered := none } := h.shown.congr
    refine ⟨hshown.pressKey (hfit key hd) hch, ?_, ?_⟩
    · by_cases hk : key = .enter
      · rw [hk]
        exact endOfLine_ran _ hshown
      · exact (pressKey_ran hk).trans (by rw [Editor.receive, press_entered hk]; rfl)
    · intro x hx
      by_cases hk : key = .enter
      · subst hk
        simp only [Editor.receive, Editor.press] at hx
        split at hx
        · cases hx
        · rename_i hne
          cases hx
          rw [not_or] at hne
          have hpos : p.1.linePosition ≠ 0 := by
            rw [h.shown.position]
            exact fun hl => hne.2 (List.eq_nil_of_length_eq_zero hl)
          have := hfit .enter hd ⟨Bool.eq_false_iff.mpr hne.1, hpos⟩
          rw [h.shown.position] at this
          exact this
      · rw [Editor.receive, press_entered hk] at hx
        cases hx

/-- A full line is discarded, and stays in the buffer. -/
theorem typeChar_full (h : Shown c s e) (hfull : s.linePosition + 1 = c.cmdSize) (hch : ch ≠ 0) :
    (typeChar c s ch).linePosition = 0 ∧
      ∃ x : UInt8, x ≠ 0 ∧ (typeChar c s ch).line[0]? = some x := by
  have hpos := h.position
  have hnot : ¬c.cmdSize ≤ s.linePosition := by omega
  have hle : c.cmdSize ≤ s.linePosition + 1 := by omega
  have heq : typeChar c s ch =
      { s with line := insertChar s ch, linePosition := 0, lineCurpos := 0 } := by
    unfold typeChar
    simp only [if_neg hnot, if_pos hle]
  rw [heq]
  refine ⟨rfl, ?_⟩
  have hlen := Shown.length_char e ch
  have htyped := h.typed_char hch
  -- a full buffer is its text
  have hpad : pad 0 c.cmdSize ((ch :: e.before).reverse ++ e.behind) =
      (ch :: e.before).reverse ++ e.behind := by
    rw [pad, Nat.sub_eq_zero_of_le (by omega), List.replicate_zero, List.append_nil]
  rw [h.insertChar, hpad]
  have hlt : 0 < ((ch :: e.before).reverse ++ e.behind).length := by omega
  exact ⟨_, fun h0 => htyped (h0 ▸ List.getElem_mem hlt), List.getElem?_eq_getElem hlt⟩

/-- A character for which there is none. -/
theorem Together.lost {a : Act} (h : Together c p) (hfit : ¬Fits c p a)
    (hs : a.step c p = some p') : ¬LineOk c p' := by
  intro hok
  refine hfit fun key hd hneeds => Nat.lt_of_not_le fun hle => ?_
  obtain ⟨s', hr, rfl⟩ := Option.map_eq_some_iff.mp hs
  have hr' := receive_eq hr
  rw [hd] at hr'
  subst hr'
  have hshown : Shown c { p.1 with ran := none, stat := (decode p.1.stat a.ch).1 }
    { p.2 with entered := none } := h.shown.congr
  have hroom := h.shown.room
  rw [← h.shown.position] at hroom
  cases key with
  | char ch =>
    obtain ⟨hp0, x, hx, hget⟩ := typeChar_full hshown (show p.1.linePosition + 1 = c.cmdSize by omega)
      (decode_char hd)
    have hz := hok.cleared 0 (Nat.le_of_eq hp0) c.cmdSize_pos
    exact hx (Option.some.inj (hget.symm.trans hz))
  | enter =>
    have hne : ¬(a.msh = true ∨ p.2.content = []) := by
      rintro (hm | hnil)
      · exact absurd (hneeds.1.symm.trans hm) (by decide)
      · refine hneeds.2 ?_
        rw [h.shown.position, hnil, List.length_nil]
    have hent : (p.2.receive c a.msh (decode p.1.stat a.ch).2).entered = some p.2.content := by
      rw [hd]
      exact if_neg hne
    obtain ⟨buf, hbuf, htake⟩ := hok.ran _ hent
    have hrun := (endOfLine_ran a.msh hshown).symm.trans hbuf
    rw [hd] at hent
    rw [show (Editor.press c { p.2 with entered := none } a.msh .enter).entered = some p.2.content
      from hent, Option.map_some, Option.some.injEq] at hrun
    rw [← hrun, take_run h.shown.room] at htake
    rw [h.shown.position] at hle
    omega
  | backspace => exact hneeds
  | left => exact hneeds
  | right => exact hneeds
  | up => exact hneeds
  | down => exact hneeds

/-- In every run of characters the shell's line is the editor's as long as none needs the last cell
of the buffer. -/
theorem editor_ok_iff (c : ShellConfig) {acts : List Act} {q : FinshShell × Editor}
    (hx : exec (Act.step c) (shellInit c, Editor.init) acts = some q) :
    Visits (Act.step c) (LineOk c) (shellInit c, Editor.init) acts ↔
      Along (Act.step c) (Fits c) (shellInit c, Editor.init) acts :=
  (along_iff_visits (fun _ h => h.ok) (fun _ _ _ h hfit hs => h.step hfit hs)
    (fun _ _ _ h hfit hs => h.lost hfit hs) hx (together_init c)).symm

/-- The configuration of the board. -/
def board : ShellConfig := ⟨80, 5, by decide, by decide⟩

/-- `ab`, one to the left, `c`, and the end of the line; the line again, and a character more. -/
def someKeys : List Act :=
  [97, 98, 0x1b, 0x5b, 0x44, 99, 13, 0x1b, 0x5b, 0x41, 100].map (Act.mk false)

theorem editor_ok_keys : ∃ q, exec (Act.step board) (shellInit board, Editor.init) someKeys = some q ∧
    q.1.line.take 5 = [97, 99, 98, 100, 0] ∧
    Visits (Act.step board) (LineOk board) (shellInit board, Editor.init) someKeys := by
  have hx : exec (Act.step board) (shellInit board, Editor.init) someKeys = some _ := rfl
  exact ⟨_, hx, by decide, (editor_ok_iff board hx).mpr (by decide)⟩

/-- 80 characters: the line is taken for an empty one, and the buffer holds them all. -/
theorem editor_discards : ∃ q,
    exec (Act.step board) (shellInit board, Editor.init) (List.replicate 80 ⟨false, 97⟩) = some q ∧
      ¬LineOk board q := by
  have hx : exec (Act.step board) (shellInit board, Editor.init) (List.replicate 80 ⟨false, 97⟩) =
    some _ := rfl
  refine ⟨_, hx, fun hok => ?_⟩
  exact absurd (hok.cleared 0 (by decide) (by decide)) (by decide)

end Tudu.Shell
