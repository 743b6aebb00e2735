import TuduOS.Finsh.Parser

/-!
# The parser on two sources of tokens

What the parser does depends on the tokens that it is given, and not on where they come from. More
rounds do not change its result either.

* `Simulates R S T`: in related states, what `S` gives `T` gives too.
* `Follows R f g`: where `f` ends, `g` ends on the other source, with the same result.
* `follows_parserRun`: the parser with at least as many rounds follows.
-/

namespace Tudu.Finsh

/-- The parser at a state of another source. -/
def Parser.over {σ τ : Type} (p : Parser σ) (t : τ) : Parser τ :=
  ⟨t, p.token, p.replay, p.errno, p.nodes, p.vars⟩

section

variable {σ τ α β : Type} {R : σ → τ → Prop} {S : Tokens σ} {T : Tokens τ} {symbols : Symbols}
  {f f' : ParserM σ α} {g g' : ParserM τ α} {k : α → ParserM σ β} {k' : α → ParserM τ β} {n m : Nat}

variable (R S T) in
def Simulates : Prop :=
  ∀ s t r, R s t → S.run s = some r → ∃ t', T.run t = some (r.1, r.2.1, t') ∧ R r.2.2 t'

variable (R) in
def Follows (f : ParserM σ α) (g : ParserM τ α) : Prop :=
  ∀ p t a p', R p.rest t → f.run p = some (a, p') →
    ∃ t', g.run (p.over t) = some (a, p'.over t') ∧ R p'.rest t'

namespace Follows

theorem pure (a : α) : Follows R (Pure.pure a) (Pure.pure a) := by
  intro p t _ _ hr h
  cases h
  exact ⟨t, rfl, hr⟩

theorem failure : Follows R (Alternative.failure : ParserM σ α) g := by
  intro p t _ _ hr h
  cases h

theorem bind (hf : Follows R f g) (hk : ∀ a, Follows R (k a) (k' a)) :
    Follows R (f >>= k) (g >>= k') := by
  intro p t b p2 hr h
  rw [StateT.run_bind] at h
  obtain ⟨⟨a, p1⟩, h1, h2⟩ := Option.bind_eq_some_iff.mp h
  obtain ⟨t1, hg, hr1⟩ := hf p t a p1 hr h1
  obtain ⟨t2, hk, hr2⟩ := hk a p1 t1 b p2 hr1 h2
  refine ⟨t2, ?_, hr2⟩
  rw [StateT.run_bind, hg]
  exact hk

/-- What is read of the parser is not its source. -/
theorem get {k : Parser σ → ParserM σ β} {k' : Parser τ → ParserM τ β}
    (hk : ∀ p t, Follows R (k p) (k' (p.over t))) : Follows R (get >>= k) (get >>= k') :=
  fun p t b p' hr h => hk p t p t b p' hr h

theorem modify {u : Parser σ → Parser σ} {v : Parser τ → Parser τ}
    (hv : ∀ p t, v (p.over t) = (u p).over t) (hu : ∀ p, (u p).rest = p.rest) :
    Follows R (modify u : ParserM σ Unit) (modify v) := by
  intro p t _ _ hr h
  cases h
  refine ⟨t, congrArg (fun q => some ((), q)) (hv p t), ?_⟩
  rw [hu]
  exact hr

theorem ite {C : Prop} [Decidable C] (hf : Follows R f g) (hf' : Follows R f' g') :
    Follows R (if C then f else f') (if C then g else g') := by
  by_cases h : C
  · rw [if_pos h, if_pos h]
    exact hf
  · rw [if_neg h, if_neg h]
    exact hf'

end Follows

/-! ## Functions that read nothing -/

theorem follows_errorSet (e : FinshError) :
    Follows R (finshErrorSet e : ParserM σ Unit) (finshErrorSet e) :=
  .modify (fun _ _ => rfl) fun _ => rfl

theorem follows_replay : Follows R (finshTokenReplay : ParserM σ Unit) finshTokenReplay :=
  .modify (fun _ _ => rfl) fun _ => rfl

theorem follows_checkToken (t type : TokenType) :
    Follows R (checkToken t type : ParserM σ Unit) (checkToken t type) :=
  .ite (.pure _) (.bind (follows_errorSet _) fun _ => follows_replay)

theorem follows_allocate (d : NodeData) :
    Follows R (finshNodeAllocate d : ParserM σ Node) (finshNodeAllocate d) := by
  intro p t _ _ hr h
  change (if p.nodes = finshNodeMax then _ else _) = _ at h
  by_cases hfull : p.nodes = finshNodeMax
  · rw [if_pos hfull] at h
    cases h
    exact ⟨t, if_pos hfull, hr⟩
  · rw [if_neg hfull] at h
    cases h
    exact ⟨t, if_neg hfull, hr⟩

theorem follows_node (d : NodeData) :
    Follows R (finshNodeNew d : ParserM σ Node) (finshNodeNew d) :=
  .bind (follows_allocate d) fun _ => .ite (.bind (follows_errorSet _) fun _ => .pure _) (.pure _)

theorem follows_nodeId (id : List Char) :
    Follows R (finshNodeNewId symbols id : ParserM σ Node) (finshNodeNewId symbols id) := by
  refine .get fun p t => ?_
  rw [show (p.over t).vars = p.vars from rfl]
  cases symbols.lookup p.vars id with
  | some symbol => exact follows_node _
  | none => exact .bind (follows_errorSet _) fun _ => .pure _

theorem follows_makeSysNode (type : NodeType) (x y : Node) :
    Follows R (makeSysNode type x y : ParserM σ Node) (makeSysNode type x y) :=
  .bind (follows_allocate _) fun _ => .ite (.bind (follows_errorSet _) fun _ => .pure _) (.pure _)

theorem follows_binaryNode (type : NodeType) (x y : Node) :
    Follows R (binaryNode type x y : ParserM σ Node) (binaryNode type x y) :=
  .ite (.bind (follows_errorSet _) fun _ => .pure _) (follows_makeSysNode type x y)

theorem follows_addParam (params : List Node) (x : Node) :
    Follows R (addParam params x : ParserM σ (List Node)) (addParam params x) :=
  .ite (.bind (follows_errorSet _) fun _ => .pure _) (.pure _)

theorem follows_typeUnknown : Follows R (typeUnknown : ParserM σ FinshType) typeUnknown :=
  .bind follows_replay fun _ => .bind (follows_errorSet _) fun _ => .pure _

/-! ## Tokens -/

section

variable (hS : Simulates R S T)
include hS

theorem follows_nextToken : Follows R (nextToken S) (nextToken T) := by
  intro p t a p' hr h
  change (if p.replay then _ else _) = _ at h
  by_cases hre : p.replay = true
  · rw [if_pos hre] at h
    cases h
    exact ⟨t, if_pos hre, hr⟩
  · rw [if_neg hre] at h
    obtain ⟨r, hrun, h⟩ := Option.map_eq_some_iff.mp h
    cases h
    obtain ⟨t', hrun', hr'⟩ := hS p.rest t r hr hrun
    refine ⟨t', (if_neg hre).trans ?_, hr'⟩
    show (T.run t).map _ = _
    rw [hrun']
    rfl

theorem Follows.next {k : TokenType → ParserM σ β} {k' : TokenType → ParserM τ β}
    (hk : ∀ t, Follows R (k t) (k' t)) : Follows R (nextToken S >>= k) (nextToken T >>= k') :=
  .bind (follows_nextToken hS) hk

theorem follows_matchToken (type : TokenType) : Follows R (matchToken S type) (matchToken T type) :=
  .next hS fun _ => follows_checkToken _ _

/-! ## Types and identifiers -/

theorem follows_procPointer (type : FinshType) :
    Follows R (procPointer S type) (procPointer T type) :=
  .next hS fun _ => .ite (.pure _) (.bind follows_replay fun _ => .pure _)

theorem follows_procType : Follows R (procType S) (procType T) := by
  refine .next hS fun t => ?_
  cases baseType t with
  | some type => exact follows_procPointer hS type
  | none =>
    refine .ite (.next hS fun u => ?_) follows_typeUnknown
    cases unsignedType u with
    | some type => exact follows_procPointer hS type
    | none =>
      refine .ite follows_typeUnknown (.bind follows_replay fun _ => ?_)
      exact .bind (follows_errorSet _) fun _ => follows_procPointer hS _

theorem follows_procIdentifier : Follows R (procIdentifier S) (procIdentifier T) :=
  .bind (follows_matchToken hS _) fun _ => .get fun p _ => .pure (p.token.string.take finshNameMax)

theorem follows_procDeclarator (type : FinshType) :
    Follows R (procDeclarator S type) (procDeclarator T type) := by
  refine .bind (follows_procIdentifier hS) fun id => .get fun p t => ?_
  rw [show (p.over t).vars = p.vars from rfl]
  cases finshVarInsert p.vars id type with
  | some vars => exact .bind (.modify (fun _ _ => rfl) fun _ => rfl) fun _ => .pure id
  | none => exact .bind (follows_errorSet _) fun _ => .pure id

theorem follows_skipToken (t : TokenType) : Follows R (skipToken S t) (skipToken T t) :=
  .ite (.pure _) (.next hS fun _ => .pure _)

/-! ## Expressions -/

section

variable {x y : ParserM σ Node} {x' y' : ParserM τ Node} (hx : Follows R x x') (hnm : n ≤ m)
include hx hnm

theorem follows_binaryLoop {op : TokenType → Option NodeType} (t : TokenType) (left : Node) :
    Follows R (procBinaryLoop S op x n t left) (procBinaryLoop T op x' m t left) := by
  induction n generalizing m t left with
  | zero => exact .failure
  | succ n ih =>
    obtain ⟨m, rfl⟩ := Nat.exists_eq_add_of_lt hnm
    unfold procBinaryLoop
    cases op t with
    | none => exact .bind follows_replay fun _ => .pure _
    | some type =>
      refine .bind hx fun right => .bind (follows_binaryNode type left right) fun left' => ?_
      exact .next hS fun u => ih (by omega) u left'

theorem follows_binary {op : TokenType → Option NodeType} :
    Follows R (procBinary S op n x) (procBinary T op m x') :=
  .bind hx fun left => .next hS fun t => follows_binaryLoop hS hx hnm t left

theorem follows_procInclusiveOrExpr :
    Follows R (procInclusiveOrExpr S n x) (procInclusiveOrExpr T m x') :=
  follows_binary hS (follows_binary hS (follows_binary hS (follows_binary hS (follows_binary hS
    (follows_binary hS hx hnm) hnm) hnm) hnm) hnm) hnm

theorem follows_procParamLoop (t : TokenType) (params : List Node) :
    Follows R (procParamLoop S x n t params) (procParamLoop T x' m t params) := by
  induction n generalizing m t params with
  | zero => exact .failure
  | succ n ih =>
    obtain ⟨m, rfl⟩ := Nat.exists_eq_add_of_lt hnm
    unfold procParamLoop
    refine .ite (.bind hx fun a => .bind (follows_addParam params a) fun params' => ?_)
      (.bind follows_replay fun _ => .pure _)
    exact .next hS fun u => ih (by omega) u params'

theorem follows_procParamList : Follows R (procParamList S n x) (procParamList T m x') :=
  .bind hx fun _ => .ite (.pure _) (.next hS fun t => follows_procParamLoop hS hx hnm t _)

theorem follows_procCall : Follows R (procCall S n x) (procCall T m x') := by
  refine .next hS fun t => .ite (.pure _) (.bind follows_replay fun _ => ?_)
  exact .bind (follows_procParamList hS hx hnm) fun _ =>
    .bind (follows_matchToken hS _) fun _ => .pure _

omit hnm in
theorem follows_procPrimaryExpr :
    Follows R (procPrimaryExpr S symbols x) (procPrimaryExpr T symbols x') := by
  refine .next hS fun t => ?_
  cases t
  case identifier =>
    exact .bind follows_replay fun _ => .bind (follows_procIdentifier hS) fun id => follows_nodeId id
  case leftParen => exact .bind hx fun _ => .bind (follows_matchToken hS _) fun _ => .pure _
  case valueInt | valueLong | valueChar | valueString => exact .get fun _ _ => follows_node _
  case valueNull => exact follows_node _
  all_goals exact .bind (follows_errorSet _) fun _ => .pure _

theorem follows_postfixLoop {i j : Nat} (hij : i ≤ j) (t : TokenType) (expr : Node) :
    Follows R (procPostfixLoop S i x n t expr) (procPostfixLoop T j x' m t expr) := by
  induction n generalizing m t expr with
  | zero => exact .failure
  | succ n ih =>
    obtain ⟨m, rfl⟩ := Nat.exists_eq_add_of_lt hnm
    have hnext : ∀ e, Follows R (nextToken S >>= fun u => procPostfixLoop S i x n u e)
        (nextToken T >>= fun u => procPostfixLoop T j x' (n + m) u e) := fun e =>
      .next hS fun u => ih (by omega) u e
    unfold procPostfixLoop
    refine .ite (.bind (follows_makeSysNode _ _ _) hnext) (.ite (.bind (follows_makeSysNode _ _ _) hnext)
      (.ite (.bind (follows_procCall hS hx hij) fun params => ?_) ?_))
    · exact .bind (follows_makeSysNode .func expr params) hnext
    · exact .bind follows_replay fun _ => .pure _

theorem follows_procUnaryExpr (hy : Follows R y y') :
    Follows R (procUnaryExpr S symbols n x y) (procUnaryExpr T symbols m x' y') := by
  refine .next hS fun t => ?_
  cases unaryOp t with
  | some type => exact .bind hy fun _ => follows_makeSysNode _ _ _
  | none =>
    refine .ite hy (.ite (.bind hy fun _ => ?_) (.bind follows_replay fun _ => ?_))
    · exact .bind (follows_node _) fun _ => follows_makeSysNode _ _ _
    · exact .bind (follows_procPrimaryExpr hS hx) fun e =>
        .next hS fun u => follows_postfixLoop hS hx hnm hnm u e

end

theorem follows_exprs (hnm : n ≤ m) :
    Follows R (procAssignExpr S symbols n) (procAssignExpr T symbols m) ∧
      Follows R (procCastExpr S symbols n) (procCastExpr T symbols m) := by
  induction n generalizing m with
  | zero => exact ⟨.failure, .failure⟩
  | succ n ih =>
    obtain ⟨m, rfl⟩ := Nat.exists_eq_add_of_lt hnm
    have hle : n ≤ n + m := Nat.le_add_right n m
    obtain ⟨hassign, hcast⟩ := ih hle
    have hunary : Follows R (procUnaryExpr S symbols n (procAssignExpr S symbols n)
        (procCastExpr S symbols n)) (procUnaryExpr T symbols (n + m)
          (procAssignExpr T symbols (n + m)) (procCastExpr T symbols (n + m))) :=
      follows_procUnaryExpr hS hassign hle hcast
    constructor
    · unfold procAssignExpr
      refine .bind (follows_procInclusiveOrExpr hS hcast hle) fun _ => .next hS fun _ => ?_
      exact .ite (.bind hassign fun _ => follows_makeSysNode _ _ _)
        (.bind follows_replay fun _ => .pure _)
    · unfold procCastExpr
      refine .next hS fun _ => .ite ?_ (.bind follows_replay fun _ => hunary)
      refine .bind (follows_procType hS) fun _ => .bind (follows_matchToken hS _) fun _ => ?_
      exact .bind hcast fun _ => .ite (.bind follows_replay fun _ => hunary) (.pure _)

/-! ## Statements -/

variable (hnm : n ≤ m)
include hnm

theorem follows_procExprStatement :
    Follows R (procExprStatement S symbols n) (procExprStatement T symbols m) := by
  refine .next hS fun _ => .ite (.pure _) (.bind follows_replay fun _ => ?_)
  exact .bind (follows_exprs hS hnm).1 fun _ => .bind (follows_matchToken hS _) fun _ => .pure _

theorem follows_procInitializer (id : List Char) :
    Follows R (procInitializer S symbols n id) (procInitializer T symbols m id) := by
  refine .bind (follows_exprs hS hnm).1 fun _ => .ite (.pure _) (.bind (follows_nodeId id) fun _ => ?_)
  exact .bind (follows_makeSysNode _ _ _) fun _ => .next hS fun _ => .pure _

theorem follows_declLoop {i j : Nat} (hij : i ≤ j) (type : FinshType) (t : TokenType)
    (nodes : List Node) :
    Follows R (procDeclLoop S symbols i type n t nodes) (procDeclLoop T symbols j type m t nodes) := by
  induction n generalizing m t nodes with
  | zero => exact .failure
  | succ n ih =>
    obtain ⟨m, rfl⟩ := Nat.exists_eq_add_of_lt hnm
    unfold procDeclLoop
    refine .ite (.bind (follows_procDeclarator hS type) fun id => .next hS fun u => ?_)
      (.bind (follows_checkToken _ _) fun _ => .pure _)
    exact .ite (.bind (follows_procInitializer hS hij id) fun r => ih (by omega) _ _)
      (ih (by omega) u nodes)

theorem follows_procVariableDecl :
    Follows R (procVariableDecl S symbols n) (procVariableDecl T symbols m) := by
  refine .bind (follows_procType hS) fun type => .bind (follows_procDeclarator hS type) fun id => ?_
  refine .next hS fun t => ?_
  cases t
  case comma => exact follows_declLoop hS hnm hnm type _ _
  case assign =>
    exact .bind (follows_procInitializer hS hnm id) fun r => follows_declLoop hS hnm hnm type _ _
  case semicolon => exact .pure _
  all_goals exact .bind (follows_errorSet _) fun _ => .pure _

theorem follows_parserLoop {i j : Nat} (hij : i ≤ j) (t : TokenType) (done : List Node)
    (node : Node) : Follows R (finshParserLoop S symbols i n t done node)
      (finshParserLoop T symbols j m t done node) := by
  induction n generalizing m t done node with
  | zero => exact .failure
  | succ n ih =>
    obtain ⟨m, rfl⟩ := Nat.exists_eq_add_of_lt hnm
    have hnext : ∀ done node, Follows R (nextToken S >>= fun u =>
        finshParserLoop S symbols i n u done node) (nextToken T >>= fun u =>
          finshParserLoop T symbols j (n + m) u done node) := fun done node =>
      .next hS fun u => ih (by omega) u done node
    unfold finshParserLoop
    refine .ite (.pure _) (.bind follows_replay fun _ => .bind (g := procStatement T symbols j t)
      (.ite (follows_procVariableDecl hS hij) (follows_procExprStatement hS hij)) fun a => ?_)
    exact .ite (.ite (.pure _) (hnext _ _)) (.ite (.bind (follows_skipToken hS t) fun _ => hnext _ _)
      (hnext _ _))

theorem follows_parserRun : Follows R (finshParserRun S symbols n) (finshParserRun T symbols m) :=
  .next hS fun t => follows_parserLoop hS hnm hnm t [] .null

end

end

end Tudu.Finsh
