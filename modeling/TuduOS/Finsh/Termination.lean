import TuduOS.Finsh.Buffers
import TuduOS.Finsh.Progress
import TuduOS.Finsh.Sources
import TuduOS.Lib.Wp

/-!
# The parser ends

The parser comes to its end on a line just if the scanner reads each token that it asks for:
`parser_terminates`.

* `Source`: what the parser is told of a source of tokens. Each token brings it nearer to its end,
  from where on the token is the end.
* `avail`: the tokens that the parser can still read, with the one that is replayed; `full` counts the
  last token that was read as well.
* `Reads a f`: where fewer than `a` tokens are left, `f` ends, and has read one.
* `Keeps f`: `f` ends, and there are no more tokens than before.
* `LineFits`: the scanner leaves none of its buffers on the line. `AskedFit`: nor does it for a token
  that the parser asks for.
-/

namespace Tudu.Finsh

open Wp

structure Source {σ : Type} (tokens : Tokens σ) (left : σ → Nat) : Prop where
  run : ∀ s, ∃ r, tokens.run s = some r ∧ left r.2.2 ≤ left s - 1 ∧ (left s = 0 → r.1.type = .eof)

namespace Parser

variable {σ : Type} (left : σ → Nat) (p : Parser σ)

/-- The last token, but for the end of the source, where it comes again. -/
def pending : Nat := if p.token.type = .eof ∧ left p.rest = 0 then 0 else 1

def full : Nat := left p.rest + p.pending left

def avail : Nat := left p.rest + if p.replay then p.pending left else 0

theorem avail_le_full : p.avail left ≤ p.full left := by
  unfold avail full
  split <;> omega

/-- Where the parser is in its source. -/
structure Same (p p' : Parser σ) : Prop where
  rest : p'.rest = p.rest
  token : p'.token = p.token
  replay : p'.replay = p.replay

variable {left p} {p' : Parser σ}

theorem Same.full (h : p.Same p') : p'.full left = p.full left := by
  unfold Parser.full pending
  rw [h.rest, h.token]

theorem Same.avail (h : p.Same p') : p'.avail left = p.avail left := by
  unfold Parser.avail pending
  rw [h.rest, h.token, h.replay]

theorem Same.refl (p : Parser σ) : p.Same p := ⟨rfl, rfl, rfl⟩

theorem Same.trans {p'' : Parser σ} (h : p.Same p') (h' : p'.Same p'') : p.Same p'' :=
  ⟨h'.rest.trans h.rest, h'.token.trans h.token, h'.replay.trans h.replay⟩

theorem pending_of_ne (h : p.token.type ≠ .eof) : p.pending left = 1 := if_neg fun h' => h h'.1

/-- The last token is no longer there to be read. -/
theorem avail_lt_full (h : p.token.type ≠ .eof) (hr : p.replay = false) :
    p.avail left + 1 = p.full left := by
  unfold avail full
  rw [pending_of_ne h, hr]
  rfl

theorem full_of_replay (h : p.replay = true) : p.avail left = p.full left := by
  unfold avail full
  rw [h, if_pos rfl]

end Parser

section

variable {σ α β : Type} {tokens : Tokens σ} {symbols : Symbols} {left : σ → Nat}
  {p p' : Parser σ} {f : ParserM σ α} {g : α → ParserM σ β} {a b k n : Nat}

/-- No more tokens than these are left. -/
structure Within (left : σ → Nat) (a k : Nat) (p : Parser σ) : Prop where
  avail : p.avail left ≤ a
  full : p.full left ≤ k

theorem Within.same (h : Within left a k p) (hs : p.Same p') : Within left a k p' where
  avail := by
    rw [hs.avail]
    exact h.avail
  full := by
    rw [hs.full]
    exact h.full

theorem Within.mono {a' k' : Nat} (h : Within left a k p) (ha : a ≤ a') (hk : k ≤ k') :
    Within left a' k' p :=
  ⟨Nat.le_trans h.avail ha, Nat.le_trans h.full hk⟩

variable (left) in
def Reads (a : Nat) (f : ParserM σ α) : Prop :=
  ∀ p, p.avail left < a → twp f (fun _ => Within left (p.avail left - 1) (p.avail left)) p

variable (left) in
def Keeps (f : ParserM σ α) : Prop :=
  ∀ p, twp f (fun _ => Within left (p.avail left) (p.avail left)) p

/-- The function does not touch the source. -/
def Quiet (f : ParserM σ α) : Prop := ∀ p, twp f (fun _ p' => p.Same p') p

/-! ## Functions that read nothing -/

theorem Quiet.pure (x : α) : Quiet (Pure.pure x : ParserM σ α) := fun p => twp_pure (.refl p)

theorem Quiet.bind (hf : Quiet f) (hg : ∀ x, Quiet (g x)) : Quiet (f >>= g) := fun p =>
  twp_bind <| twp_mono (hf p) fun x p1 h1 => twp_mono (hg x p1) fun _ _ h2 => h1.trans h2

theorem Quiet.ite {C : Prop} [Decidable C] {f' : ParserM σ α} (hf : C → Quiet f) (hf' : ¬C → Quiet f') :
    Quiet (if C then f else f') :=
  fun p => twp_ite (fun h => hf h p) fun h => hf' h p

theorem quiet_get : Quiet (get : ParserM σ (Parser σ)) := fun p => twp_get (.refl p)

theorem quiet_errorSet (e : FinshError) : Quiet (finshErrorSet e : ParserM σ Unit) :=
  fun _ => twp_modify ⟨rfl, rfl, rfl⟩

theorem quiet_allocate (d : NodeData) : Quiet (finshNodeAllocate d : ParserM σ Node) := by
  intro p
  by_cases h : p.nodes = finshNodeMax
  · exact ⟨_, _, if_pos h, .refl p⟩
  · exact ⟨_, _, if_neg h, ⟨rfl, rfl, rfl⟩⟩

theorem quiet_node (d : NodeData) : Quiet (finshNodeNew d : ParserM σ Node) :=
  .bind (quiet_allocate d) fun _ => .ite (fun _ => .bind (quiet_errorSet _) fun _ => .pure _)
    fun _ => .pure _

theorem quiet_nodeId (id : List Char) : Quiet (finshNodeNewId symbols id : ParserM σ Node) := by
  refine .bind quiet_get fun p => ?_
  cases symbols.lookup p.vars id with
  | some symbol => exact quiet_node _
  | none => exact .bind (quiet_errorSet _) fun _ => .pure _

theorem quiet_makeSysNode (type : NodeType) (x y : Node) :
    Quiet (makeSysNode type x y : ParserM σ Node) :=
  .bind (quiet_allocate _) fun _ => .ite (fun _ => .bind (quiet_errorSet _) fun _ => .pure _)
    fun _ => .pure _

theorem quiet_binaryNode (type : NodeType) (x y : Node) :
    Quiet (binaryNode type x y : ParserM σ Node) :=
  .ite (fun _ => .bind (quiet_errorSet _) fun _ => .pure _) fun _ => quiet_makeSysNode type x y

theorem quiet_addParam (params : List Node) (x : Node) :
    Quiet (addParam params x : ParserM σ (List Node)) :=
  .ite (fun _ => .bind (quiet_errorSet _) fun _ => .pure _) fun _ => .pure _

/-- What a function that reads nothing does before another one. -/
theorem Quiet.twp {Q : β → Parser σ → Prop} (hf : Quiet f)
    (hg : ∀ x p', p.Same p' → twp (g x) Q p') : twp (f >>= g) Q p :=
  twp_bind (twp_mono (hf p) hg)

/-! ## Tokens -/

/-- The token `t` was read between `p` and `p'`. -/
structure Token (left : σ → Nat) (t : TokenType) (p p' : Parser σ) : Prop where
  within : Within left (p.avail left - 1) (p.avail left) p'
  type : p'.token.type = t
  replay : p'.replay = false
  pos : t ≠ .eof → 1 ≤ p.avail left
  again : p.replay = true → t = p.token.type

/-- A token that is not the end is one less. -/
theorem Token.lt {t : TokenType} (h : Token left t p p') (ht : t ≠ .eof) :
    p'.avail left < p.avail left := by
  have hle := h.within.avail
  have hpos := h.pos ht
  omega

/-- The last token is `t`, and it is not there any more. -/
structure Read (t : TokenType) (p : Parser σ) : Prop where
  type : p.token.type = t
  replay : p.replay = false

theorem Token.read {t : TokenType} (h : Token left t p p') : Read t p' := ⟨h.type, h.replay⟩

theorem Read.lt {t : TokenType} (h : Read t p) (ht : t ≠ .eof) : p.avail left + 1 = p.full left :=
  Parser.avail_lt_full (by rw [h.type]; exact ht) h.replay

variable (left) in
/-- The last token is there again. -/
theorem twp_replay {Q : β → Parser σ → Prop} {g : Unit → ParserM σ β}
    (hg : ∀ p', Within left (p.full left) (p.full left) p' → p'.replay = true →
      p'.token = p.token → twp (g ()) Q p') : twp (finshTokenReplay >>= g) Q p := by
  refine twp_bind (twp_modify (hg _ ⟨?_, Nat.le_refl _⟩ rfl rfl))
  exact Nat.le_of_eq (Parser.full_of_replay rfl)

/-- The token behind a loop is there again. -/
theorem replay_spec {x : α} (hk : p.full left ≤ k) :
    twp (finshTokenReplay >>= fun _ => pure x) (fun _ => Within left k k) p :=
  twp_replay left fun _ h _ _ => twp_pure (h.mono hk hk)

theorem typeUnknown_spec : twp typeUnknown (fun _ => Within left (p.full left) (p.full left)) p :=
  twp_replay left fun _ h1 _ _ => (quiet_errorSet _).twp fun _ _ h2 => twp_pure (h1.same h2)

variable (hsrc : Source tokens left)
include hsrc

theorem nextToken_spec : twp (nextToken tokens) (fun t p' => Token left t p p') p := by
  by_cases h : p.replay = true
  · refine ⟨p.token.type, { p with replay := false }, if_pos h, ?_, rfl, rfl, ?_, fun _ => rfl⟩
    · refine ⟨?_, Nat.le_of_eq (Parser.full_of_replay h).symm⟩
      rw [Parser.full_of_replay h]
      unfold Parser.full Parser.pending
      show left p.rest + 0 ≤ _
      split
      · omega
      · omega
    · intro ht
      rw [Parser.full_of_replay h, Parser.full, Parser.pending_of_ne ht]
      omega
  · obtain ⟨r, hr, hleft, hend⟩ := hsrc.run p.rest
    have havail : p.avail left = left p.rest := by
      unfold Parser.avail
      rw [if_neg h, Nat.add_zero]
    refine ⟨r.1.type, { p with rest := r.2.2, token := r.1, errno := r.2.1.getD p.errno }, ?_, ?_, rfl,
      Bool.eq_false_iff.mpr h, ?_, fun h' => absurd h' h⟩
    · show (if p.replay then _ else _) = _
      rw [if_neg h, hr]
      rfl
    · rw [havail]
      constructor
      · unfold Parser.avail
        show left r.2.2 + (if p.replay = true then _ else 0) ≤ _
        rw [if_neg h]
        exact hleft
      · unfold Parser.full Parser.pending
        show left r.2.2 + (if r.1.type = .eof ∧ left r.2.2 = 0 then 0 else 1) ≤ _
        by_cases hzero : left p.rest = 0
        · rw [if_pos ⟨hend hzero, by omega⟩]
          omega
        · split <;> omega
    · intro ht
      rw [havail]
      by_contra hzero
      exact ht (hend (by omega))

/-- Reading a token, before what is done with it. -/
theorem twp_next {Q : β → Parser σ → Prop} {g : TokenType → ParserM σ β}
    (hg : ∀ t p', Token left t p p' → twp (g t) Q p') : twp (nextToken tokens >>= g) Q p :=
  twp_bind (twp_mono (nextToken_spec hsrc) hg)

theorem keeps_matchToken (type : TokenType) : Keeps left (matchToken tokens type) := by
  refine fun p => twp_next hsrc fun t p1 h1 => ?_
  have hw := h1.within
  refine twp_ite (fun _ => twp_pure (hw.mono (Nat.sub_le _ _) (Nat.le_refl _))) fun _ => ?_
  refine (quiet_errorSet _).twp fun _ p2 h2 => ?_
  have hw' := hw.same h2
  exact twp_modify ⟨Nat.le_trans (Nat.le_of_eq (Parser.full_of_replay rfl)) hw'.full, hw'.full⟩

/-- A token that is replayed and fits is read again. -/
theorem matchToken_again {type : TokenType} (hr : p.replay = true) (ht : p.token.type = type) : twp
    (matchToken tokens type) (fun _ => Within left (p.avail left - 1) (p.avail left)) p := by
  refine twp_next hsrc fun u p1 h1 => ?_
  have hu : u = type := (h1.again hr).trans ht
  exact twp_ite (fun _ => twp_pure h1.within) fun hne => absurd hu hne

/-! ## Types and identifiers -/

theorem keeps_procPointer (type : FinshType) : Keeps left (procPointer tokens type) := by
  refine fun p => twp_next hsrc fun t p1 h1 => ?_
  have hw := h1.within
  refine twp_ite (fun _ => twp_pure (hw.mono (Nat.sub_le _ _) (Nat.le_refl _))) fun _ => ?_
  exact twp_replay left fun p2 h2 _ _ => twp_pure (h2.mono hw.full hw.full)

/-- A type is read. If there is none, the token stays. -/
theorem procType_spec :
    twp (procType tokens) (fun _ p' => Within left (p.avail left) (p.avail left) p' ∧
      (p.replay = true → isDecl p.token.type = true → p'.avail left ≤ p.avail left - 1)) p := by
  refine twp_next hsrc fun t p1 h1 => ?_
  have hw := h1.within
  have hle := hw.avail
  have hread : ∀ {p'}, Within left (p1.avail left) (p1.avail left) p' →
      Within left (p.avail left) (p.avail left) p' ∧
        (p.replay = true → isDecl p.token.type = true → p'.avail left ≤ p.avail left - 1) := by
    intro p' h
    have hle' := h.avail
    exact ⟨h.mono (by omega) (by omega), fun _ _ => by omega⟩
  cases hbase : baseType t with
  | some type => exact twp_mono (keeps_procPointer hsrc type p1) fun _ _ h => hread h
  | none =>
    refine twp_ite (fun _ => ?_) fun hne => ?_
    · refine twp_next hsrc fun u p2 h2 => ?_
      have hw' := h2.within
      have hpointer : ∀ type {p'}, p'.avail left ≤ p1.avail left →
          twp (procPointer tokens type) (fun _ p'' =>
            Within left (p.avail left) (p.avail left) p'' ∧ (p.replay = true →
              isDecl p.token.type = true → p''.avail left ≤ p.avail left - 1)) p' :=
        fun type _ hle => twp_mono (keeps_procPointer hsrc type _) fun _ _ h =>
          hread (h.mono hle hle)
      cases unsignedType u with
      | some type => exact hpointer type (Nat.le_trans hw'.avail (Nat.sub_le _ _))
      | none =>
        refine twp_ite (fun _ => ?_) fun _ => ?_
        · exact twp_mono typeUnknown_spec fun _ _ h => hread (h.mono hw'.full hw'.full)
        · refine twp_replay left fun p3 h3 _ _ => (quiet_errorSet _).twp fun _ p4 h4 => ?_
          have hw'' := h3.same h4
          exact hpointer .unknown (Nat.le_trans hw''.avail hw'.full)
    · refine twp_mono typeUnknown_spec fun _ p2 h => ⟨h.mono hw.full hw.full, ?_⟩
      intro hr hdecl
      rw [← h1.again hr] at hdecl
      unfold isDecl at hdecl
      rw [hbase] at hdecl
      exact absurd (beq_iff_eq.mp hdecl) hne

theorem keeps_procIdentifier : Keeps left (procIdentifier tokens) := fun p =>
  twp_bind <| twp_mono (keeps_matchToken hsrc .identifier p) fun _ _ h =>
    twp_bind (twp_get (twp_pure h))

/-! ## Loops -/

/-- A round of a loop: an operand is read, and the token behind it. -/
theorem round_spec {operand : ParserM σ Node}
    (hoperand : Reads left a operand) {node : Node → ParserM σ β} (hnode : ∀ x, Quiet (node x))
    {loop : β → TokenType → ParserM σ α} {t : TokenType} (ht : Read t p) (hne : t ≠ .eof)
    (ha : p.full left ≤ a)
    (hloop : ∀ y u p', Read u p' → p'.full left < p.full left → twp (loop y u)
      (fun _ => Within left (p'.full left) (p'.full left)) p') :
    twp (operand >>= fun x => node x >>= fun y => nextToken tokens >>= fun u => loop y u)
      (fun _ => Within left (p.full left) (p.full left)) p := by
  have hlt : p.avail left + 1 = p.full left := ht.lt hne
  refine twp_bind <| twp_mono (hoperand p (by omega)) fun x p1 h1 => ?_
  refine (hnode x).twp fun y p2 h2 => ?_
  have hw := h1.same h2
  refine twp_next hsrc fun u p3 h3 => ?_
  have hfull := Nat.le_trans h3.within.full hw.avail
  exact twp_mono (hloop y u p3 h3.read (by omega)) fun _ _ h => h.mono (by omega) (by omega)

theorem binaryLoop_spec {op : TokenType → Option NodeType}
    (hop : op .eof = none) {operand : ParserM σ Node} (hoperand : Reads left a operand)
    {t : TokenType} {node : Node} (ht : Read t p) (hn : p.full left < n) (ha : p.full left ≤ a) :
    twp (procBinaryLoop tokens op operand n t node)
      (fun _ => Within left (p.full left) (p.full left)) p := by
  induction n generalizing t node p with
  | zero => omega
  | succ n ih =>
    unfold procBinaryLoop
    cases htype : op t with
    | none => exact replay_spec (Nat.le_refl _)
    | some type =>
      have hne : t ≠ .eof := by
        rintro rfl
        rw [hop] at htype
        cases htype
      exact round_spec hsrc hoperand (quiet_binaryNode type node) ht hne ha fun _ _ _ hu hlt =>
        ih hu (by omega) (by omega)

theorem reads_procBinary {op : TokenType → Option NodeType}
    (hop : op .eof = none) {operand : ParserM σ Node} (hoperand : Reads left a operand)
    (hn : a ≤ n) : Reads left a (procBinary tokens op n operand) := by
  intro p ha
  refine twp_bind <| twp_mono (hoperand p ha) fun node p1 h1 => ?_
  refine twp_next hsrc fun t p2 h2 => ?_
  have hfull := Nat.le_trans h2.within.full h1.avail
  exact twp_mono (binaryLoop_spec hsrc hop hoperand h2.read (by omega) (by omega))
    fun _ _ h => h.mono hfull (by omega)

theorem reads_procInclusiveOrExpr {cast : ParserM σ Node} (hcast : Reads left a cast) (hn : a ≤ n) :
    Reads left a (procInclusiveOrExpr tokens n cast) :=
  reads_procBinary hsrc rfl (reads_procBinary hsrc rfl (reads_procBinary hsrc rfl
    (reads_procBinary hsrc rfl (reads_procBinary hsrc rfl (reads_procBinary hsrc rfl hcast hn) hn)
      hn) hn) hn) hn

/-! ## Expressions -/

section

variable {assign cast : ParserM σ Node} {t : TokenType} (hassign : Reads left a assign)
include hassign

theorem paramLoop_spec {params : List Node} (ht : Read t p) (hn : p.full left < n)
    (ha : p.full left ≤ a) : twp (procParamLoop tokens assign n t params)
    (fun _ => Within left (p.full left) (p.full left)) p := by
  induction n generalizing t params p with
  | zero => omega
  | succ n ih =>
    unfold procParamLoop
    refine twp_ite (fun hcomma => ?_) fun _ => replay_spec (Nat.le_refl _)
    exact round_spec hsrc hassign (quiet_addParam params) ht (by rw [hcomma]; decide) ha
      fun _ _ _ hu hlt => ih hu (by omega) (by omega)

theorem reads_procParamList (hn : a ≤ n) : Reads left a (procParamList tokens n assign) := by
  intro p ha
  refine twp_bind <| twp_mono (hassign p ha) fun first p1 h1 => ?_
  refine twp_ite (fun _ => twp_pure h1) fun _ => ?_
  refine twp_next hsrc fun u p2 h2 => ?_
  have hfull := Nat.le_trans h2.within.full h1.avail
  exact twp_mono (paramLoop_spec hsrc hassign h2.read (by omega) (by omega))
    fun _ _ h => h.mono hfull (by omega)

theorem reads_procPrimaryExpr : Reads left (a + 1) (procPrimaryExpr tokens symbols assign) := by
  intro p ha
  refine twp_next hsrc fun u p1 h1 => ?_
  have hw := h1.within
  have hle := hw.avail
  have hquiet : ∀ {f : ParserM σ Node}, Quiet f →
      twp f (fun _ => Within left (p.avail left - 1) (p.avail left)) p1 := fun hf =>
    twp_mono (hf p1) fun _ _ h => hw.same h
  have hget : ∀ {g : Parser σ → ParserM σ Node}, (∀ q, Quiet (g q)) →
      twp (get >>= g) (fun _ => Within left (p.avail left - 1) (p.avail left)) p1 :=
    fun hg => hquiet (.bind quiet_get hg)
  cases u
  case identifier =>
    refine twp_replay left fun p2 h2 hr hsame => ?_
    have htype : p2.token.type = .identifier := by rw [hsame]; exact h1.type
    refine twp_bind <| twp_bind <| twp_mono (matchToken_again hsrc hr htype) fun _ p3 h3 => ?_
    have hle' := Nat.le_trans h2.avail hw.full
    refine twp_bind <| twp_get <| twp_pure <| twp_mono (quiet_nodeId _ p3) fun _ _ h => ?_
    exact (h3.same h).mono (by omega) hle'
  case leftParen =>
    have hlt := h1.lt (by decide)
    refine twp_bind <| twp_mono (hassign p1 (by omega)) fun expr p2 h2 => ?_
    have hle' := h2.avail
    refine twp_bind <| twp_mono (keeps_matchToken hsrc .rightParen p2) fun _ _ h3 => ?_
    exact twp_pure (h3.mono (by omega) (by omega))
  case valueInt => exact hget fun _ => quiet_node _
  case valueLong => exact hget fun _ => quiet_node _
  case valueChar => exact hget fun _ => quiet_node _
  case valueString => exact hget fun _ => quiet_node _
  case valueNull => exact hquiet (quiet_node _)
  all_goals exact hquiet (.bind (quiet_errorSet _) fun _ => .pure _)

theorem reads_procCall (hn : a ≤ n) : Reads left a (procCall tokens n assign) := by
  intro p ha
  refine twp_next hsrc fun u p1 h1 => ?_
  have hw := h1.within
  refine twp_ite (fun _ => twp_pure hw) fun _ => ?_
  refine twp_replay left fun p2 h2 _ _ => ?_
  have hle := Nat.le_trans h2.avail hw.full
  refine twp_bind <| twp_mono (reads_procParamList hsrc hassign hn p2 (by omega))
    fun params p3 h3 => ?_
  have hle' := h3.avail
  refine twp_bind <| twp_mono (keeps_matchToken hsrc .rightParen p3) fun _ _ h4 => ?_
  exact twp_pure (h4.mono (by omega) (by omega))

theorem postfixLoop_spec {m : Nat} (hm : a ≤ m) {expr : Node} (ht : Read t p) (hn : p.full left < n)
    (ha : p.full left ≤ a) : twp (procPostfixLoop tokens m assign n t expr)
    (fun _ => Within left (p.full left) (p.full left)) p := by
  induction n generalizing t expr p with
  | zero => omega
  | succ n ih =>
    have hquiet : ∀ {f : ParserM σ Node}, t ≠ .eof → Quiet f →
        twp (f >>= fun e => nextToken tokens >>= fun u => procPostfixLoop tokens m assign n u e)
          (fun _ => Within left (p.full left) (p.full left)) p := by
      intro f hne hf
      have hlt : p.avail left + 1 = p.full left := ht.lt hne
      refine hf.twp fun e p1 h1 => twp_next hsrc fun u p2 h2 => ?_
      have hfull := Nat.le_trans h2.within.full (Nat.le_of_eq h1.avail)
      exact twp_mono (ih h2.read (by omega) (by omega)) fun _ _ h => h.mono (by omega) (by omega)
    unfold procPostfixLoop
    refine twp_ite (fun hinc => ?_) fun _ => twp_ite (fun hdec => ?_) fun _ =>
      twp_ite (fun hparen => ?_) fun _ => replay_spec (Nat.le_refl _)
    · exact hquiet (by rw [hinc]; decide) (quiet_makeSysNode _ _ _)
    · exact hquiet (by rw [hdec]; decide) (quiet_makeSysNode _ _ _)
    · exact round_spec hsrc (reads_procCall hsrc hassign hm) (quiet_makeSysNode .func expr) ht
        (by rw [hparen]; decide) ha fun _ _ _ hu hlt => ih hu (by omega) (by omega)

theorem reads_procPostfixExpr
    (hn : a + 1 ≤ n) : Reads left (a + 1) (procPostfixExpr tokens symbols n assign) := by
  intro p ha
  refine twp_bind <| twp_mono (reads_procPrimaryExpr hsrc hassign p ha) fun expr p1 h1 => ?_
  refine twp_next hsrc fun u p2 h2 => ?_
  have hfull := Nat.le_trans h2.within.full h1.avail
  exact twp_mono (postfixLoop_spec hsrc hassign (by omega) h2.read (by omega) (by omega))
    fun _ _ h => h.mono hfull (by omega)

theorem reads_procUnaryExpr (hcast : Reads left a cast) (hn : a + 1 ≤ n) : Reads left (a + 1)
    (procUnaryExpr tokens symbols n assign cast) := by
  intro p ha
  refine twp_next hsrc fun u p1 h1 => ?_
  have hw := h1.within
  have hle := hw.avail
  have hoperand : u ≠ .eof → twp cast (fun _ p' =>
      Within left (p.avail left - 1) (p.avail left) p') p1 := by
    intro hne
    have hlt := h1.lt hne
    exact twp_mono (hcast p1 (by omega)) fun _ _ h => h.mono (by omega) (by omega)
  cases hop : unaryOp u with
  | some type =>
    have hne : u ≠ .eof := by
      rintro rfl
      cases hop
    exact twp_bind <| twp_mono (hoperand hne) fun _ p2 h2 =>
      twp_mono (quiet_makeSysNode _ _ _ p2) fun _ _ h => h2.same h
  | none =>
    refine twp_ite (fun hadd => hoperand (by rw [hadd]; decide)) fun _ => twp_ite (fun hsub => ?_)
      fun _ => ?_
    · refine twp_bind <| twp_mono (hoperand (by rw [hsub]; decide)) fun operand p2 h2 => ?_
      refine (quiet_node _).twp fun zero p3 h3 => ?_
      exact twp_mono (quiet_makeSysNode _ _ _ p3) fun _ _ h => (h2.same h3).same h
    · refine twp_replay left fun p2 h2 _ _ => ?_
      have hle' := Nat.le_trans h2.avail hw.full
      exact twp_mono (reads_procPostfixExpr hsrc hassign hn p2 (by omega)) fun _ _ h =>
        h.mono (by omega) hle'

end

theorem reads_exprs (n : Nat) :
    (∀ a, 2 * a + 1 ≤ n → Reads left a (procAssignExpr tokens symbols n)) ∧
      ∀ a, 2 * a ≤ n → Reads left a (procCastExpr tokens symbols n) := by
  induction n with
  | zero => exact ⟨fun a ha => by omega, fun a ha p hlt => by omega⟩
  | succ n ih =>
    obtain ⟨hassign, hcast⟩ := ih
    constructor
    · intro a ha p hlt
      unfold procAssignExpr
      have hor : Reads left a (procInclusiveOrExpr tokens n (procCastExpr tokens symbols n)) :=
        reads_procInclusiveOrExpr hsrc (hcast a (by omega)) (by omega)
      refine twp_bind <| twp_mono (hor p hlt) fun or p1 h1 => ?_
      have hle := h1.avail
      refine twp_next hsrc fun u p2 h2 => ?_
      have hfull := Nat.le_trans h2.within.full hle
      refine twp_ite (fun hassigns => ?_) fun _ => ?_
      · have hlt' := h2.lt (by rw [hassigns]; decide)
        refine twp_bind <| twp_mono (hassign (a - 1) (by omega) p2 (by omega))
          fun _ p3 h3 => ?_
        exact twp_mono (quiet_makeSysNode _ _ _ p3) fun _ _ h =>
          (h3.same h).mono (by omega) (by omega)
      · exact twp_mono (replay_spec hfull) fun _ _ h =>
          h.mono (Nat.le_refl _) (Nat.sub_le _ _)
    · intro a ha p hlt
      obtain ⟨b, rfl⟩ : ∃ b, a = b + 1 := ⟨a - 1, by omega⟩
      have hunary : Reads left (b + 1) (procUnaryExpr tokens symbols n
          (procAssignExpr tokens symbols n) (procCastExpr tokens symbols n)) :=
        reads_procUnaryExpr hsrc (hassign b (by omega)) (hcast b (by omega)) (by omega)
      unfold procCastExpr
      refine twp_next hsrc fun u p1 h1 => ?_
      have hw := h1.within
      refine twp_ite (fun hparen => ?_) fun _ => ?_
      · have hlt' := h1.lt (by rw [hparen]; decide)
        refine twp_bind <| twp_mono (procType_spec hsrc) fun type p2 h2 => ?_
        have hle := h2.1.avail
        refine twp_bind <| twp_mono (keeps_matchToken hsrc .rightParen p2) fun _ p3 h3 => ?_
        have hle' := Nat.le_trans h3.avail hle
        refine twp_bind <| twp_mono (hcast b (by omega) p3 (by omega)) fun c p4 h4 => ?_
        refine twp_ite (fun _ => ?_) fun _ => twp_pure (h4.mono (by omega) (by omega))
        refine twp_replay left fun p5 h5 _ _ => ?_
        have hfull := Nat.le_trans h5.avail h4.full
        exact twp_mono (hunary p5 (by omega)) fun _ _ h => h.mono (by omega) (by omega)
      · refine twp_replay left fun p2 h2 _ _ => ?_
        have hle := Nat.le_trans h2.avail hw.full
        exact twp_mono (hunary p2 (by omega)) fun _ _ h => h.mono (by omega) hle

omit hsrc in
/-- An expression leaves a token to be read again. -/
theorem replay_procAssignExpr (n : Nat) :
    wp (procAssignExpr tokens symbols n) (fun _ p' => p'.replay = true) p := by
  induction n generalizing p with
  | zero => exact wp_failure
  | succ n ih =>
    unfold procAssignExpr
    refine wp_bind.mpr fun _ _ _ => wp_bind.mpr fun u _ _ => wp_ite (fun _ => ?_) fun _ => ?_
    · refine wp_bind.mpr <| wp_mono ih fun _ p1 h1 => ?_
      refine wp_mono (wp_of_twp (quiet_makeSysNode _ _ _ p1)) fun _ _ h => ?_
      exact h.replay.trans h1
    · exact wp_bind.mpr <| wp_modify.mpr <| wp_pure.mpr rfl

/-! ## Statements -/

section

variable {m : Nat} {t : TokenType}

theorem keeps_procDeclarator (type : FinshType) : Keeps left (procDeclarator tokens type) := by
  refine fun p => twp_bind <| twp_mono (keeps_procIdentifier hsrc p) fun id p1 h1 => ?_
  refine twp_bind <| twp_get ?_
  cases finshVarInsert p1.vars id type with
  | some vars =>
    refine twp_bind <| twp_modify <| twp_pure (h1.same ⟨rfl, rfl, rfl⟩)
  | none => exact (quiet_errorSet _).twp fun _ _ h => twp_pure (h1.same h)

theorem skipToken_spec : twp (skipToken tokens t) (fun _ p' => p'.avail left ≤ p.avail left) p :=
  twp_ite (fun _ => twp_pure (Nat.le_refl _)) fun _ => twp_next hsrc fun _ _ h =>
    twp_pure (Nat.le_trans h.within.avail (Nat.sub_le _ _))

/-- The token that a loop over declarators goes on with: it was read, or it is the `=` in front of an
expression without a tree. -/
def Goes (t : TokenType) (p : Parser σ) : Prop := Read t p ∨ t = .assign ∧ p.replay = true

variable (hassign : Reads left a (procAssignExpr tokens symbols m))
include hassign

theorem procInitializer_spec
    (ha : p.avail left < a) (id : List Char) : twp (procInitializer tokens symbols m id)
      (fun r p' => Within left (p.avail left) (p.avail left) p' ∧ Goes r.2 p') p := by
  have hexpr := twp_wp (hassign p ha) (replay_procAssignExpr m)
  refine twp_bind <| twp_mono hexpr fun assign p1 h1 => ?_
  obtain ⟨hw, hr⟩ := h1
  refine twp_ite (fun _ => twp_pure ⟨hw.mono (Nat.sub_le _ _) (Nat.le_refl _), .inr ⟨rfl, hr⟩⟩)
    fun _ => ?_
  refine (quiet_nodeId id).twp fun idnode p2 h2 => (quiet_makeSysNode _ _ _).twp fun node p3 h3 => ?_
  have hw' := (hw.same h2).same h3
  have hle := hw'.avail
  refine twp_next hsrc fun u p4 h4 => twp_pure ⟨?_, .inl h4.read⟩
  exact h4.within.mono (by omega) (by omega)

theorem declLoop_spec {type : FinshType} {nodes : List Node} (ht : Goes t p) (hn : p.full left < n)
    (ha : p.full left ≤ a) : twp (procDeclLoop tokens symbols m type n t nodes)
    (fun _ => Within left (p.full left) (p.full left)) p := by
  induction n generalizing t nodes p with
  | zero => omega
  | succ n ih =>
    unfold procDeclLoop
    refine twp_ite (fun hcomma => ?_) fun _ => ?_
    · have hread : Read t p := by
        rcases ht with h | ⟨h, -⟩
        · exact h
        · rw [hcomma] at h
          cases h
      have hlt : p.avail left + 1 = p.full left := hread.lt (by rw [hcomma]; decide)
      refine twp_bind <| twp_mono (keeps_procDeclarator hsrc type p) fun id p1 h1 => ?_
      refine twp_next hsrc fun u p2 h2 => ?_
      have hfull := Nat.le_trans h2.within.full h1.avail
      have havail := p2.avail_le_full left
      refine twp_ite (fun _ => ?_) fun _ => ?_
      · have hinit := procInitializer_spec (p := p2) hsrc hassign (by omega) id
        refine twp_bind <| twp_mono hinit fun r p3 h3 => ?_
        obtain ⟨hw, hgoes⟩ := h3
        have hfull' := hw.full
        exact twp_mono (ih hgoes (by omega) (by omega)) fun _ _ h =>
          h.mono (by omega) (by omega)
      · exact twp_mono (ih (.inl h2.read) (by omega) (by omega)) fun _ _ h =>
          h.mono (by omega) (by omega)
    · have hhere : Within left (p.full left) (p.full left) p :=
        ⟨p.avail_le_full left, Nat.le_refl _⟩
      refine twp_bind <| twp_ite (fun _ => twp_pure (twp_pure hhere)) fun _ => ?_
      refine (quiet_errorSet _).twp fun _ p1 h1 => twp_modify <| twp_pure ?_
      have hw := hhere.same h1
      exact ⟨Nat.le_trans (Nat.le_of_eq (Parser.full_of_replay rfl)) hw.full, hw.full⟩

theorem procVariableDecl_spec (ham : a ≤ m)
    (hr : p.replay = true) (hdecl : isDecl p.token.type = true) (ha : p.avail left < a) :
    twp (procVariableDecl tokens symbols m)
      (fun _ => Within left (p.avail left - 1) (p.avail left)) p := by
  refine twp_bind <| twp_mono (procType_spec hsrc) fun type p1 h1 => ?_
  obtain ⟨hw, hless⟩ := h1
  have hle := hless hr hdecl
  refine twp_bind <| twp_mono (keeps_procDeclarator hsrc type p1) fun id p2 h2 => ?_
  refine twp_next hsrc fun u p3 h3 => ?_
  have hfull := Nat.le_trans (Nat.le_trans h3.within.full h2.avail) hle
  have havail := p3.avail_le_full left
  have hloop : ∀ {p' : Parser σ} {v : TokenType} {nodes : List Node}, Goes v p' →
      p'.full left ≤ p.avail left - 1 → twp (procDeclLoop tokens symbols m type m v nodes)
        (fun _ => Within left (p.avail left - 1) (p.avail left)) p' := fun hv hf =>
    twp_mono (declLoop_spec hsrc hassign hv (by omega) (by omega)) fun _ _ h =>
      h.mono hf (by omega)
  have hhere : Within left (p.avail left - 1) (p.avail left) p3 :=
    ⟨by omega, by omega⟩
  cases u
  case comma => exact hloop (.inl h3.read) hfull
  case assign =>
    have hinit := procInitializer_spec (p := p3) hsrc hassign (by omega) id
    refine twp_bind <| twp_mono hinit fun r p4 h4 => ?_
    exact hloop h4.2 (Nat.le_trans h4.1.full (by omega))
  case semicolon => exact twp_pure hhere
  all_goals exact (quiet_errorSet _).twp fun _ _ h => twp_pure (hhere.same h)

theorem reads_procExprStatement : Reads left a (procExprStatement tokens symbols m) := by
  intro p ha
  refine twp_next hsrc fun u p1 h1 => twp_ite (fun _ => twp_pure h1.within) fun _ => ?_
  refine twp_replay left fun p2 h2 _ _ => ?_
  have hle := Nat.le_trans h2.avail h1.within.full
  refine twp_bind <| twp_mono (hassign p2 (by omega)) fun expr p3 h3 => ?_
  have hle' := h3.avail
  refine twp_bind <| twp_mono (keeps_matchToken hsrc .semicolon p3) fun _ _ h4 => ?_
  exact twp_pure (h4.mono (by omega) (by omega))

theorem procStatement_spec (ham : a ≤ m) (hr : p.replay = true) (ht : p.token.type = t)
    (ha : p.avail left < a) : twp (procStatement tokens symbols m t)
    (fun _ => Within left (p.avail left - 1) (p.avail left)) p := by
  refine twp_ite (fun hdecl => ?_) fun _ => reads_procExprStatement hsrc hassign p ha
  rw [← ht] at hdecl
  exact procVariableDecl_spec hsrc hassign ham hr hdecl ha

/-- Each statement reads a token: the token that it begins with, if no other. -/
theorem parserLoop_spec (ham : a ≤ m) {done : List Node} {node : Node} (ht : Read t p)
    (hn : p.full left < n) (ha : p.full left < a) : twp
    (finshParserLoop tokens symbols m n t done node) (fun _ _ => True) p := by
  induction n generalizing t done node p with
  | zero => omega
  | succ n ih =>
    unfold finshParserLoop
    refine twp_ite (fun _ => twp_pure trivial) fun hend => ?_
    have hlt : p.avail left + 1 = p.full left := ht.lt fun h => hend (.inl h)
    refine twp_replay left fun p1 h1 hr htoken => ?_
    have hle := h1.avail
    have hstatement := procStatement_spec (t := t) hsrc hassign ham hr
      (by rw [htoken]; exact ht.type) (by omega)
    refine twp_bind <| twp_mono hstatement fun statement p2 h2 => ?_
    have hless := h2.avail
    have hnext : ∀ {p' : Parser σ} {done : List Node} {node : Node},
        p'.avail left ≤ p2.avail left → twp (nextToken tokens >>= fun u =>
          finshParserLoop tokens symbols m n u done node) (fun _ _ => True) p' := by
      intro p' done node havail
      refine twp_next hsrc fun u p3 h3 => ?_
      have hfull := Nat.le_trans h3.within.full havail
      exact ih h3.read (by omega) (by omega)
    refine twp_ite (fun _ => twp_ite (fun _ => twp_pure trivial) fun _ => ?_) fun _ =>
      twp_ite (fun _ => ?_) fun _ => ?_
    · exact hnext (Nat.le_refl _)
    · refine twp_bind <| twp_mono (skipToken_spec hsrc) fun _ _ h3 => ?_
      exact hnext h3
    · exact hnext (Nat.le_refl _)

omit hassign in
/-- From every source that comes nearer to its end with each token. -/
theorem parserRun_spec (rest : σ) (vars : List FinshVar) (hn : 2 * left rest + 5 ≤ n) : twp
    (finshParserRun tokens symbols n) (fun _ _ => True) (finshParserInit rest vars) := by
  have hassign : Reads left (left rest + 2) (procAssignExpr tokens symbols n) :=
    (reads_exprs hsrc n).1 _ (by omega)
  refine twp_next hsrc fun t p1 h1 => ?_
  have hfull : p1.full left ≤ left rest := h1.within.full
  exact parserLoop_spec hsrc hassign (by omega) h1.read (by omega) (by omega)

end

end

/-! ## The scanner as a source -/

namespace FinshToken

variable {s t : FinshToken} {line text : List Char} {c : Char} {n : Nat}

/-- The characters in front of the scanner, and the null byte behind them. -/
def toRead (s : FinshToken) : Nat := if s.eof then 0 else s.line.length - s.position + 1

theorem Ahead.toRead_le (h : Ahead 1 s t) (hs : s.InLine) : t.toRead ≤ s.toRead - 1 := by
  unfold toRead
  by_cases ht : t.eof = true
  · rw [if_pos ht]
    exact Nat.zero_le _
  · obtain ⟨hgo, hle⟩ := h.further (Bool.eq_false_iff.mpr ht)
    have hin := h.moves.inLine hs
    unfold InLine at hin
    rw [if_neg ht, if_neg (Bool.eq_false_iff.mp hgo), h.moves.line]
    rw [h.moves.line] at hin
    omega

/-- The scanner reads these tokens between `s` and `t`. -/
inductive ReadTo : FinshToken → List (Lexeme × Option FinshError) → FinshToken → Prop
  | nil (s : FinshToken) : ReadTo s [] s
  | cons {s t : FinshToken} {r : Lexeme × Option FinshError × FinshToken}
      {l : List (Lexeme × Option FinshError)} :
    finshTokens.run s = some r → ReadTo r.2.2 l t → ReadTo s ((r.1, r.2.1) :: l) t

/-- A line as the shell builds it: it ends with `;`, and there is no newline on it. -/
structure ShellLine (line : List Char) : Prop where
  last : line.getLast? = some ';'
  one : '\n' ∉ line

/-- Each token of the line stays inside the buffer it is collected in. -/
def LineFits (line : List Char) : Prop :=
  ∀ l s, ReadTo (finshTokenInit line) l s → TokenFits (s.textLeft.dropWhile isBlank)

/-- These tokens alone do not bring the parser to its end: it asks for one behind them. -/
def AsksBehind (symbols : Symbols) (vars : List FinshVar) (l : List (Lexeme × Option FinshError)) :
    Prop :=
  ∀ n, (finshParserRun givenTokens symbols n).run (finshParserInit l vars) = none

/-- Each token that the parser asks for stays inside its buffer. -/
def AskedFit (symbols : Symbols) (vars : List FinshVar) (line : List Char) : Prop :=
  ∀ l s, ReadTo (finshTokenInit line) l s → AsksBehind symbols vars l →
    TokenFits (s.textLeft.dropWhile isBlank)

theorem textLeft_sublist (s : FinshToken) : s.textLeft.Sublist s.line := by
  unfold textLeft
  split
  · exact List.nil_sublist _
  · exact (List.takeWhile_sublist _).trans (List.drop_sublist _ _)

theorem ShellLine.takeWhile_drop (hline : ShellLine line) (n : Nat) :
    (line.drop n).takeWhile (· != '\n') = line.drop n := by
  refine List.takeWhile_eq_self_iff.mpr fun c hc => ?_
  have hne : c ≠ '\n' := by
    rintro rfl
    exact hline.one (List.mem_of_mem_drop hc)
  simpa using hne

theorem semi_mem (hline : ShellLine s.line) (h : s.textLeft ≠ []) : ';' ∈ s.textLeft := by
  unfold textLeft at h ⊢
  by_cases heof : s.eof = true
  · rw [if_pos heof] at h
    exact absurd rfl h
  · rw [if_neg heof] at h ⊢
    have hall := hline.takeWhile_drop s.position
    rw [hall] at h ⊢
    have hlt : s.position < s.line.length := by
      rw [Ne, List.drop_eq_nil_iff] at h
      omega
    refine List.mem_of_getLast? ?_
    rw [List.getLast?_drop, if_neg (by omega)]
    exact hline.last

/-- A token that the scanner reads fits. -/
theorem fits_of_run {r : Lexeme × Option FinshError × FinshToken} (h : finshTokens.run s = some r) :
    TokenFits (s.textLeft.dropWhile isBlank) := by
  by_contra hnot
  obtain ⟨r, hr, -⟩ := Option.map_eq_some_iff.mp h
  rw [tokenRun_none hnot] at hr
  cases hr

theorem run_spec (hline : ShellLine s.line) (hfits : TokenFits (s.textLeft.dropWhile isBlank)) :
    ∃ r, finshTokens.run s = some r ∧ Ahead 1 s r.2.2 ∧ (s.eof = true → r.1.type = .eof) := by
  obtain ⟨r, hr, hahead, hend⟩ := tokenRun_spec (semi_mem hline) hfits
  refine ⟨(⟨r.1.currentToken, r.1.value, r.1.string⟩, r.2, r.1), ?_, hahead, hend⟩
  show s.tokenRun.map _ = _
  rw [hr]
  rfl

theorem moves_of_run {r : Lexeme × Option FinshError × FinshToken} (hline : ShellLine s.line)
    (h : finshTokens.run s = some r) : Moves s r.2.2 := by
  obtain ⟨r', hr', hahead, -⟩ := run_spec hline (fits_of_run h)
  rw [h] at hr'
  cases hr'
  exact hahead.moves

theorem ReadTo.moves {l : List (Lexeme × Option FinshError)} (h : ReadTo s l t)
    (hline : ShellLine s.line) : Moves s t := by
  induction h with
  | nil => exact .refl
  | cons hrun _ ih =>
    have hmoves := moves_of_run hline hrun
    exact hmoves.trans (ih (hmoves.line ▸ hline))

theorem ReadTo.snoc {l : List (Lexeme × Option FinshError)} (h : ReadTo s l t)
    {r : Lexeme × Option FinshError × FinshToken} (hrun : finshTokens.run t = some r) :
    ReadTo s (l ++ [(r.1, r.2.1)]) r.2.2 := by
  induction h with
  | nil => exact .cons hrun (.nil _)
  | cons hfirst _ ih => exact .cons hfirst (ih hrun)

/-- The scanner, on the states that it comes to on the line. -/
def lineTokens (line : List Char) : Tokens {s // ∃ l, ReadTo (finshTokenInit line) l s} where
  run s := (finshTokens.run s.1).pmap (fun r h => (r.1, r.2.1, ⟨r.2.2, h⟩)) fun _ hr =>
    s.2.elim fun _ hs => ⟨_, hs.snoc hr⟩

theorem lineTokens_run {s : {s // ∃ l, ReadTo (finshTokenInit line) l s}}
    {r : Lexeme × Option FinshError × {s // ∃ l, ReadTo (finshTokenInit line) l s}} :
    (lineTokens line).run s = some r ↔ finshTokens.run s.1 = some (r.1, r.2.1, r.2.2.1) := by
  unfold lineTokens
  rw [Option.pmap_eq_some_iff]
  constructor
  · rintro ⟨q, _, hq, rfl⟩
    exact hq
  · exact fun h => ⟨_, r.2.2.2, h, rfl⟩

theorem source_lineTokens (hline : ShellLine line) (hfits : LineFits line) :
    Source (lineTokens line) fun s => s.1.toRead where
  run := by
    rintro ⟨s, l, hs⟩
    have hmoves := hs.moves hline
    have hsame : s.line = line := hmoves.line
    obtain ⟨r, hr, hahead, hend⟩ := run_spec (by rw [hsame]; exact hline) (hfits l s hs)
    refine ⟨(r.1, r.2.1, ⟨r.2.2, _, hs.snoc hr⟩), lineTokens_run.mpr hr,
      hahead.toRead_le (hmoves.inLine (Nat.zero_le _)), fun hzero => hend ?_⟩
    by_contra hgo
    unfold toRead at hzero
    rw [if_neg hgo] at hzero
    omega

/-! ## Short lines -/

theorem behindEscape_length_le (text : List Char) : (behindEscape text).length ≤ text.length := by
  have hle : ∀ p : Char → Bool, (text.tail.dropWhile p).length ≤ text.length := fun p =>
    ((List.dropWhile_sublist p).trans (List.tail_sublist text)).length_le
  rw [behindEscape_eq]
  split
  · exact hle _
  · split
    · exact hle _
    · exact (List.tail_sublist text).length_le

theorem roomFor_of_length (h : text.length < n) : RoomFor n text := by
  induction n generalizing text with
  | zero => omega
  | succ n ih =>
    cases text with
    | nil => trivial
    | cons c text =>
      rw [List.length_cons] at h
      have hle := behindEscape_length_le text
      rw [roomFor_cons]
      split
      · exact ih (by omega)
      · split
        · trivial
        · exact ih (by omega)

theorem numberFits_of_length (h : text.length < numberSize) : NumberFits text := by
  have hle : ∀ (p : Char → Bool) (l : List Char), l.length ≤ text.length →
      (l.takeWhile p).length < numberSize := fun p l hl =>
    Nat.lt_of_le_of_lt (Nat.le_trans (List.takeWhile_sublist p).length_le hl) h
  unfold NumberFits
  split
  · rename_i c text
    rw [List.length_cons, List.length_cons] at hle
    split
    · exact hle _ _ (by omega)
    · split
      · exact hle _ _ (by omega)
      · split
        · exact hle _ _ (by rw [List.length_cons]; omega)
        · trivial
  · trivial

theorem tokenFits_of_length (h : text.length < stringSize) (hq : '\'' ∉ text) : TokenFits text := by
  cases text with
  | nil => trivial
  | cons c text =>
    rw [tokenFits_cons]
    rw [List.length_cons] at h
    split
    · exact numberFits_of_length (by rw [List.length_cons]; exact h)
    · split
      · have hle := (List.takeWhile_sublist isNameChar (l := text)).length_le
        omega
      · split
        · rename_i hc
          exact absurd (by rw [hc]; exact List.mem_cons_self) hq
        · split
          · exact roomFor_of_length (by omega)
          · trivial

/-- A line of the shell is too short for a name, a number or a string to leave its buffer. -/
theorem lineFits_of_length (hline : ShellLine line) (h : line.length < stringSize)
    (hq : '\'' ∉ line) : LineFits line := by
  intro l s hs
  have hsame : s.line = line := (hs.moves hline).line
  have hsub := (List.dropWhile_sublist isBlank).trans s.textLeft_sublist
  rw [hsame] at hsub
  exact tokenFits_of_length (Nat.lt_of_le_of_lt hsub.length_le h) fun hmem => hq (hsub.subset hmem)

end FinshToken

open FinshToken

section

variable {line : List Char} {symbols : Symbols} {vars : List FinshVar} {n m : Nat} {root : Node}
  {p : Parser FinshToken}

/-- More rounds do not change the tree, and the scanner has come to its last state by moves. -/
theorem finshParserRun_mono (hline : ShellLine line) (hnm : n ≤ m)
    (h : (finshParserRun finshTokens symbols n).run (finshParserInit (finshTokenInit line) vars) =
      some (root, p)) :
    (finshParserRun finshTokens symbols m).run (finshParserInit (finshTokenInit line) vars) =
      some (root, p) ∧ Moves (finshTokenInit line) p.rest := by
  have hsim : Simulates (fun s t => s = t ∧ Moves (finshTokenInit line) s) finshTokens
      finshTokens := by
    rintro s _ r ⟨rfl, hs⟩ hr
    exact ⟨r.2.2, hr, rfl, hs.trans (moves_of_run (by rw [hs.line]; exact hline) hr)⟩
  obtain ⟨_, hrun, rfl, hmoves⟩ := follows_parserRun hsim hnm
    (finshParserInit (finshTokenInit line) vars) (finshTokenInit line) root p ⟨rfl, .refl⟩ h
  exact ⟨hrun, hmoves⟩

variable {s : FinshToken} {l : List (Lexeme × Option FinshError)}

/-- Where the scanner refuses the token behind these, the parser comes to its end on the line just
if it does so on them. -/
theorem parserRun_iff (hl : ReadTo (finshTokenInit line) l s) (hs : finshTokens.run s = none) :
    (∃ r, (finshParserRun finshTokens symbols n).run (finshParserInit (finshTokenInit line) vars) =
      some r) ↔ ∃ r, (finshParserRun givenTokens symbols n).run (finshParserInit l vars) = some r := by
  have hto : Simulates (fun t k => ReadTo t k s) finshTokens givenTokens := by
    intro t k r hk hr
    cases hk with
    | nil =>
      rw [hs] at hr
      cases hr
    | cons hrun hk =>
      rw [hrun] at hr
      cases hr
      exact ⟨_, rfl, hk⟩
  have hback : Simulates (fun k t => ReadTo t k s) givenTokens finshTokens := by
    intro k t r hk hr
    cases hk with
    | nil => cases hr
    | cons hrun hk =>
      cases hr
      exact ⟨_, hrun, hk⟩
  constructor
  · rintro ⟨r, hr⟩
    obtain ⟨_, h, -⟩ := follows_parserRun hto (Nat.le_refl n) _ l _ _ hl hr
    exact ⟨_, h⟩
  · rintro ⟨r, hr⟩
    obtain ⟨_, h, -⟩ := follows_parserRun hback (Nat.le_refl n) _ _ _ _ hl hr
    exact ⟨_, h⟩

/-- Where all tokens fit, twice the length of the line is enough. -/
theorem finshParserRun_fits (hline : ShellLine line) (hfits : LineFits line)
    (hn : 2 * line.length + 7 ≤ n) : ∃ r, (finshParserRun finshTokens symbols n).run
      (finshParserInit (finshTokenInit line) vars) = some r := by
  have hlen : (finshTokenInit line).toRead = line.length + 1 := rfl
  obtain ⟨root, p, hrun, -⟩ := parserRun_spec (source_lineTokens hline hfits)
    ⟨finshTokenInit line, [], .nil _⟩ vars (n := n) (by rw [hlen]; omega)
  have hsim : Simulates (fun s t => s.1 = t) (lineTokens line) finshTokens := by
    rintro s _ r rfl hr
    exact ⟨_, lineTokens_run.mp hr, rfl⟩
  obtain ⟨_, h, -⟩ := follows_parserRun hsim (Nat.le_refl n) _ (finshTokenInit line) root p rfl hrun
  exact ⟨_, h⟩

end

/-- From some number of rounds on, the parser has this result, and the scanner has come to its last
state by reads and steps back. -/
def ParserEnds (symbols : Symbols) (vars : List FinshVar) (line : List Char) : Prop :=
  ∃ root p N, (∀ n, N ≤ n → (finshParserRun finshTokens symbols n).run
    (finshParserInit (finshTokenInit line) vars) = some (root, p)) ∧ Moves (finshTokenInit line) p.rest

/-- The digits of a character literal, for which there are four bytes. -/
def longEscape : List Char := "'\\12345678901234567890';".toList

end Tudu.Finsh
