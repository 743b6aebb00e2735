import Mathlib.Data.List.Basic

/-!
# Straight-line code

A machine fetches an instruction from a text at its program counter, executes it and goes on behind
it. Where the text holds the encoding of a list of instructions, the machine executes the list.

* `At text c pc`: the text has `c` at `pc`.
* `loop`: step after step, as long as the program counter is below the limit.
* `Coding`: instructions, what the text has for them, and what they do.
* `Coding.loop_at`: the loop over the code of a list is the list.
-/

namespace Straight

variable {B I S E : Type}

def At (text : Nat → B) (code : List B) (pc : Nat) : Prop :=
  ∀ i (h : i < code.length), text (pc + i) = code[i]

theorem At.left {text : Nat → B} {c d : List B} {pc : Nat} (h : At text (c ++ d) pc) :
    At text c pc := by
  intro i hi
  have hlt : i < (c ++ d).length := by
    rw [List.length_append]
    omega
  rw [h i hlt, List.getElem_append_left hi]

theorem At.right {text : Nat → B} {c d : List B} {pc : Nat} (h : At text (c ++ d) pc) :
    At text d (pc + c.length) := by
  intro i hi
  have hlt : c.length + i < (c ++ d).length := by
    rw [List.length_append]
    omega
  rw [Nat.add_assoc, h _ hlt, List.getElem_append_right (Nat.le_add_right _ _)]
  simp only [Nat.add_sub_cancel_left]

theorem At.head {text : Nat → B} {b : B} {c : List B} {pc : Nat} (h : At text (b :: c) pc) :
    text pc = b :=
  h 0 (Nat.zero_lt_succ _)

theorem At.tail {text : Nat → B} {b : B} {c : List B} {pc : Nat} (h : At text (b :: c) pc) :
    At text c (pc + 1) :=
  At.right (c := [b]) h

/-- `while (pc < limit)`, for at most the given number of rounds. -/
def loop (step : Nat → S → Except E (Nat × S)) (limit : Nat) : Nat → Nat → S → Except E S
  | 0, _, s => .ok s
  | n + 1, pc, s =>
    if pc < limit then (step pc s).bind fun r => loop step limit n r.1 r.2 else .ok s

theorem loop_lt {step : Nat → S → Except E (Nat × S)} {limit n pc : Nat} {s : S} (h : pc < limit) :
    loop step limit (n + 1) pc s = (step pc s).bind fun r => loop step limit n r.1 r.2 :=
  if_pos h

theorem loop_ge {step : Nat → S → Except E (Nat × S)} {limit n pc : Nat} {s : S}
    (h : limit ≤ pc) : loop step limit n pc s = .ok s := by
  cases n with
  | zero => rfl
  | succ n => exact if_neg (Nat.not_lt_of_le h)

structure Coding (B I S E : Type) where
  encode : I → List B
  exec : I → S → Except E S
  step : (Nat → B) → Nat → S → Except E (Nat × S)
  encode_ne : ∀ i, encode i ≠ []
  step_at : ∀ text i pc s, At text (encode i) pc →
    step text pc s = (exec i s).map fun s' => (pc + (encode i).length, s')

namespace Coding

variable (m : Coding B I S E)

def encodeAll (l : List I) : List B := l.flatMap m.encode

def execAll : List I → S → Except E S
  | [], s => .ok s
  | i :: l, s => (m.exec i s).bind (execAll l)

variable {m} {text : Nat → B} {limit pc : Nat} {s s' : S} {l k : List I}

@[simp] theorem execAll_nil : m.execAll [] s = .ok s := rfl

theorem execAll_cons (i : I) : m.execAll (i :: l) s = (m.exec i s).bind (m.execAll l) := rfl

theorem execAll_append : m.execAll (l ++ k) s = (m.execAll l s).bind (m.execAll k) := by
  induction l generalizing s with
  | nil => rfl
  | cons i l ih =>
    rw [List.cons_append, execAll_cons, execAll_cons]
    cases m.exec i s with
    | error e => rfl
    | ok s' => exact ih

theorem execAll_append_ok (h : m.execAll l s = .ok s') : m.execAll (l ++ k) s = m.execAll k s' := by
  rw [execAll_append, h]
  rfl

theorem encodeAll_cons (i : I) : m.encodeAll (i :: l) = m.encode i ++ m.encodeAll l :=
  List.flatMap_cons

theorem length_encodeAll_cons (i : I) :
    (m.encodeAll (i :: l)).length = (m.encode i).length + (m.encodeAll l).length := by
  rw [encodeAll_cons, List.length_append]

theorem length_le_encodeAll : l.length ≤ (m.encodeAll l).length := by
  induction l with
  | nil => exact Nat.le_refl _
  | cons i l ih =>
    have hpos := List.length_pos_of_ne_nil (m.encode_ne i)
    rw [length_encodeAll_cons, List.length_cons]
    omega

/-- The loop over the code of a list. -/
theorem loop_at {n : Nat} (h : At text (m.encodeAll l) pc)
    (hfit : pc + (m.encodeAll l).length ≤ limit) :
    loop (m.step text) limit (l.length + n) pc s =
      (m.execAll l s).bind fun s' => loop (m.step text) limit n (pc + (m.encodeAll l).length) s' := by
  induction l generalizing pc s with
  | nil =>
    rw [List.length_nil, Nat.zero_add]
    rfl
  | cons i l ih =>
    have hpos := List.length_pos_of_ne_nil (m.encode_ne i)
    rw [length_encodeAll_cons] at hfit ⊢
    rw [encodeAll_cons] at h
    have hlen : (i :: l).length + n = (l.length + n) + 1 := by
      rw [List.length_cons]
      omega
    rw [hlen, execAll_cons, loop_lt (by omega), m.step_at text i pc s h.left]
    cases m.exec i s with
    | error e => rfl
    | ok s' =>
      refine (ih h.right (by omega)).trans ?_
      rw [Nat.add_assoc]
      rfl

end Coding

end Straight
