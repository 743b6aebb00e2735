import TuduOS.Flash.Find

/-!
# A walk over any content

The sectors have valid headers (`Sectors`); what is in them may be anything: ENVs, deleted ones, and
what is left of a write that was interrupted. The ENVs are then those that the store itself sees,
one after the other (`Walk`): of each one its name, if it can be used. What the local variables of a
walk have at its start does not matter (`Walk.agrees`).

* `Sectors.walk`: there is a walk, which comes to an end.
* `Walk.envIterator`: `env_iterator` reads these ENVs.
-/

namespace Tudu.Flash

open Bytes (Memory)
open Nor

/-- An ENV that can be used. -/
def EnvMeta.Usable (env : EnvMeta) : Prop := env.crcIsOk = true ∧ env.status = .write

instance (env : EnvMeta) : Decidable env.Usable := inferInstanceAs (Decidable (_ ∧ _))

/-- The name of an ENV that can be used. -/
def EnvMeta.seen (env : EnvMeta) : Option (List UInt8) :=
  if env.Usable then some (env.name.take env.nameLen) else none

/-- What is read of a valid header at `p`. -/
def SectorMeta.head (fl : Memory) (p : Nat) (m : SectorMeta) : SectorMeta :=
  { m with
    addr := p
    magic := sectorMagicWord
    checkOk := true
    combined := sectorHdr.load fl .combined p
    store := .ofCode (getStatus (fl p) 4)
    dirty := .ofCode (getStatus (fl (p + 1)) 4) }

/-- A valid header of a sector that has been formatted. -/
structure HeadAt (fl : Memory) (p : Nat) : Prop where
  aligned : p % sectorSize = 0
  magic : sectorHdr.load fl .magic p = sectorMagicWord
  ready : StoreStatus.ofCode (getStatus (fl p) 4) ≠ .unused

/-- The bytes of the sector with a header at `p`. -/
def bytesAt (fl : Memory) (p : Nat) : Nat :=
  (if sectorHdr.load fl .combined p = sectorNotCombined then 1
    else sectorHdr.load fl .combined p) * sectorSize

/-- From `o` to the end of the area there is one sector behind the other. -/
inductive Sectors (fl : Memory) : Nat → Prop
  | stop : Sectors fl (envStartAddr + envAreaSize)
  | sector {p : Nat} : HeadAt fl p → 0 < bytesAt fl p → Sectors fl (p + bytesAt fl p) → Sectors fl p

/-- The ENVs that are left of a walk, behind `env` in a sector (`true`) or behind the sector
(`false`). -/
inductive Walk : Bool → Memory → SectorMeta → EnvMeta → List (Option (List UInt8)) → Prop
  | env {fl : Memory} {m : SectorMeta} {env : EnvMeta} {a : Nat} {es : List (Option (List UInt8))} :
      getNextEnvAddr fl m env = a → a ≠ failedAddr →
      Walk true (readEnv fl { env with start := a }).2 m (readEnv fl { env with start := a }).1 es →
      Walk true fl m env ((readEnv fl { env with start := a }).1.seen :: es)
  | leave {fl : Memory} {m : SectorMeta} {env : EnvMeta} {es : List (Option (List UInt8))} :
      getNextEnvAddr fl m env = failedAddr → Walk false fl m { env with start := failedAddr } es →
      Walk true fl m env es
  | enter {fl : Memory} {m : SectorMeta} {env : EnvMeta} {p : Nat}
      {es : List (Option (List UInt8))} :
      getNextSectorAddr m = p → p ≠ failedAddr → HeadAt fl p → (m.head fl p).store ≠ .empty →
      Walk true fl (m.head fl p) { env with start := failedAddr } es → Walk false fl m env es
  | skip {fl : Memory} {m : SectorMeta} {env : EnvMeta} {p : Nat}
      {es : List (Option (List UInt8))} :
      getNextSectorAddr m = p → p ≠ failedAddr → HeadAt fl p → (m.head fl p).store = .empty →
      Walk false fl (m.head fl p) env es → Walk false fl m env es
  | stop {fl : Memory} {m : SectorMeta} {env : EnvMeta} :
      getNextSectorAddr m = failedAddr → Walk false fl m env []

variable {fl fl' : Memory} {a o p n hi : Nat} {m m' : SectorMeta} {env env' : EnvMeta} {b : Bool}
  {es : List (Option (List UInt8))}

theorem readSectorMetaData_head (h : HeadAt fl p) (m : SectorMeta) :
    readSectorMetaData n fl p m false = some (m.head fl p, fl) := by
  unfold readSectorMetaData
  rw [if_neg (not_not.mpr h.aligned)]
  simp only [h.magic, ne_eq, not_true_eq_false, if_false, if_true]
  rfl

/-! ## Local variables -/

/-- The same position: what the walk reads of the two structures. -/
structure EnvMeta.Agrees (env env' : EnvMeta) : Prop where
  start : env.start = env'.start
  crcIsOk : env.start ≠ failedAddr → env.crcIsOk = env'.crcIsOk
  len : env.start ≠ failedAddr → env.len = env'.len

structure SectorMeta.Agrees (m m' : SectorMeta) : Prop where
  addr : m.addr = m'.addr
  combined : m.combined = m'.combined
  store : m.store = m'.store

theorem SectorMeta.Agrees.bytes (h : m.Agrees m') : m.bytes = m'.bytes := by
  unfold SectorMeta.bytes
  rw [h.combined]

theorem getNextEnvAddr_agrees (hm : m.Agrees m') (he : env.Agrees env') :
    getNextEnvAddr fl m env = getNextEnvAddr fl m' env' := by
  unfold getNextEnvAddr
  rw [hm.store, hm.addr, hm.bytes, ← he.start]
  by_cases hs : env.start = failedAddr
  · rw [if_pos hs, if_pos hs]
  · rw [he.crcIsOk hs, he.len hs]

/-- What is read of an ENV: the name that is seen, and the position behind it. -/
theorem readEnv_agrees (env env' : EnvMeta) (a : Nat) :
    (readEnv fl { env with start := a }).2 = (readEnv fl { env' with start := a }).2 ∧
      (readEnv fl { env with start := a }).1.seen = (readEnv fl { env' with start := a }).1.seen ∧
      (readEnv fl { env with start := a }).1.Agrees (readEnv fl { env' with start := a }).1 := by
  unfold readEnv
  simp only
  split
  · exact ⟨rfl, rfl, rfl, fun _ => rfl, fun _ => rfl⟩
  · split
    · exact ⟨rfl, rfl, rfl, fun _ => rfl, fun _ => rfl⟩
    · refine ⟨rfl, ?_, rfl, fun _ => rfl, fun _ => rfl⟩
      -- of the buffer, the name is what was just read
      have hlen : ∀ rest : List UInt8, ((efPortRead fl (add32 a envHdrDataSize)
          (envHdr.load fl .nameLen a)) ++ rest).take (envHdr.load fl .nameLen a) =
          efPortRead fl (add32 a envHdrDataSize) (envHdr.load fl .nameLen a) := by
        intro rest
        rw [List.take_append_of_le_length (by simp [efPortRead]), List.take_of_length_le]
        simp [efPortRead]
      unfold EnvMeta.seen EnvMeta.Usable
      simp only [hlen]

theorem head_agrees (m m' : SectorMeta) : (m.head fl p).Agrees (m'.head fl p) := ⟨rfl, rfl, rfl⟩

/-- A walk does not depend on what else is in its local variables. -/
theorem Walk.agrees (h : Walk b fl m env es)
    (hm : if b then m.Agrees m' ∧ env.Agrees env' else getNextSectorAddr m = getNextSectorAddr m') :
    Walk b fl m' env' es := by
  induction h generalizing m' env' with
  | env ha hne _ ih =>
    rw [if_pos rfl] at hm
    obtain ⟨hfl, hseen, hagree⟩ := readEnv_agrees _ env' _
    rw [hseen]
    refine .env ((getNextEnvAddr_agrees hm.1 hm.2).symm.trans ha) hne ?_
    rw [← hfl]
    exact ih (by rw [if_pos rfl]; exact ⟨hm.1, hagree⟩)
  | leave ha _ ih =>
    rw [if_pos rfl] at hm
    refine .leave ((getNextEnvAddr_agrees hm.1 hm.2).symm.trans ha) (ih ?_)
    simp only [Bool.false_eq_true, if_false]
    unfold getNextSectorAddr
    rw [hm.1.addr, hm.1.bytes]
  | enter hp hne hh hs _ ih =>
    simp only [Bool.false_eq_true, if_false] at hm
    refine .enter (hm.symm.trans hp) hne hh hs (ih ?_)
    rw [if_pos rfl]
    exact ⟨head_agrees _ _, rfl, fun hc => absurd rfl hc, fun hc => absurd rfl hc⟩
  | skip hp hne hh hs _ ih =>
    simp only [Bool.false_eq_true, if_false] at hm
    refine .skip (hm.symm.trans hp) hne hh hs (ih ?_)
    simp only [Bool.false_eq_true, if_false]
    rfl
  | stop hp =>
    simp only [Bool.false_eq_true, if_false] at hm
    exact .stop (hm.symm.trans hp)

/-! ## The iterator -/

/-- The callback keeps what it gets. -/
def keepCb (env : EnvMeta) (l : List EnvMeta) : Bool × List EnvMeta := (false, l ++ [env])

/-- The names of the ENVs that can be used. -/
def liveNames (n : Nat) (fl : Memory) (sector : SectorMeta) (env : EnvMeta) :
    Option (List (List UInt8)) :=
  (envIterator n keepCb sector env fl []).map fun r => r.2.2.2.filterMap EnvMeta.seen

/-- The callback never stops the iterator. -/
theorem envsFrom_keepCb {acc : List EnvMeta} {e : Bool × EnvMeta × Memory × List EnvMeta}
    (h : envsFrom keepCb n m env fl acc = some e) : e.1 = false := by
  induction n generalizing env fl acc with
  | zero => cases h
  | succ n ih =>
    unfold envsFrom at h
    simp only at h
    split at h
    · cases h
      rfl
    · exact ih h

theorem Walk.envIteratorFrom (h : Walk b fl m env es) : ∃ (l : List EnvMeta) (env' : EnvMeta)
    (fl' : Memory) (N : Nat), l.map EnvMeta.seen = es ∧ ∀ k n acc, N ≤ k → N ≤ n →
      (if b then (envsFrom keepCb k m env fl acc).bind fun e =>
          envIteratorFrom keepCb n m e.2.1 e.2.2.1 e.2.2.2
        else envIteratorFrom keepCb n m env fl acc) = some (false, env', fl', acc ++ l) := by
  induction h with
  | @env fl m env a es ha hne _ ih =>
    obtain ⟨l, env', fl', N, hl, hrun⟩ := ih
    refine ⟨_ :: l, env', fl', N + 1, by rw [List.map_cons, hl], fun k n acc hk hn => ?_⟩
    obtain ⟨k, rfl⟩ : ∃ j, k = j + 1 := ⟨k - 1, by omega⟩
    have hgo := hrun k n (acc ++ [(readEnv fl { env with start := a }).1]) (by omega) (by omega)
    rw [if_pos rfl] at hgo ⊢
    unfold envsFrom
    rw [ha, if_neg hne]
    simpa [keepCb] using hgo
  | leave ha _ ih =>
    obtain ⟨l, env', fl', N, hl, hrun⟩ := ih
    refine ⟨l, env', fl', N + 1, hl, fun k n acc hk hn => ?_⟩
    obtain ⟨k, rfl⟩ : ∃ j, k = j + 1 := ⟨k - 1, by omega⟩
    have hgo := hrun k n acc (by omega) (by omega)
    rw [if_pos rfl]
    unfold envsFrom
    rw [ha]
    simpa using hgo
  | @enter fl m env p es hp hne hh hs _ ih =>
    obtain ⟨l, env', fl', N, hl, hrun⟩ := ih
    refine ⟨l, env', fl', N + 1, hl, fun k n acc hk hn => ?_⟩
    obtain ⟨n, rfl⟩ : ∃ j, n = j + 1 := ⟨n - 1, by omega⟩
    have hstore : (m.head fl p).store = .inUse ∨ (m.head fl p).store = .full := by
      have hready : (m.head fl p).store ≠ .unused := hh.ready
      cases hst : (m.head fl p).store with
      | unused => exact absurd hst hready
      | empty => exact absurd hst hs
      | inUse => exact .inl rfl
      | full => exact .inr rfl
    have hgo := hrun n n acc (by omega) (by omega)
    rw [if_pos rfl] at hgo
    simp only [Bool.false_eq_true, if_false]
    unfold Flash.envIteratorFrom
    simp only [hp, if_neg hne, readSectorMetaData_head hh, Option.bind_eq_bind, Option.bind_some]
    rw [if_pos ⟨rfl, hstore⟩]
    obtain ⟨e, he, hgo'⟩ := Option.bind_eq_some_iff.mp hgo
    rw [he, Option.bind_some, envsFrom_keepCb he, if_neg Bool.false_ne_true]
    exact hgo'
  | skip hp hne hh hs _ ih =>
    obtain ⟨l, env', fl', N, hl, hrun⟩ := ih
    refine ⟨l, env', fl', N + 1, hl, fun k n acc hk hn => ?_⟩
    obtain ⟨n, rfl⟩ : ∃ j, n = j + 1 := ⟨n - 1, by omega⟩
    have hgo := hrun n n acc (by omega) (by omega)
    simp only [Bool.false_eq_true, if_false] at hgo ⊢
    unfold Flash.envIteratorFrom
    simp only [hp, if_neg hne, readSectorMetaData_head hh, Option.bind_eq_bind, Option.bind_some]
    rw [if_neg]
    · exact hgo
    · rintro ⟨-, hc | hc⟩
      · exact absurd (hc.symm.trans hs) StoreStatus.noConfusion
      · exact absurd (hc.symm.trans hs) StoreStatus.noConfusion
  | @stop fl m env hp =>
    refine ⟨[], env, fl, 1, rfl, fun k n acc hk hn => ?_⟩
    obtain ⟨n, rfl⟩ : ∃ j, n = j + 1 := ⟨n - 1, by omega⟩
    simp only [Bool.false_eq_true, if_false]
    unfold Flash.envIteratorFrom
    rw [hp, List.append_nil]
    exact if_pos rfl

/-- `env_iterator` reads the ENVs of the walk. -/
theorem Walk.liveNames (h : Walk false fl { m with addr := failedAddr } env es) :
    ∃ N, ∀ n, N ≤ n → liveNames n fl m env = some (es.filterMap id) := by
  obtain ⟨l, env', fl', N, hl, hrun⟩ := h.envIteratorFrom
  refine ⟨N, fun n hn => ?_⟩
  have hgo := hrun n n [] hn hn
  simp only [Bool.false_eq_true, if_false, List.nil_append] at hgo
  unfold Flash.liveNames envIterator
  rw [hgo, Option.map_some, ← hl, List.filterMap_map]
  rfl

/-! ## The walk comes to an end -/

theorem magicFrom_bounds {startBak k : Nat} (ha : 4 ≤ a) (hr : magicFrom fl startBak k a ≠ failedAddr) :
    startBak ≤ magicFrom fl startBak k a ∧ magicFrom fl startBak k a + 4 < a + k := by
  induction k generalizing a with
  | zero => exact absurd rfl hr
  | succ k ih =>
    unfold magicFrom at hr ⊢
    split
    · next h =>
      have hsub : sub32 a envMagicOffset = a - 4 := sub32_of_le ha
      rw [hsub] at h ⊢
      omega
    · next h =>
      rw [if_neg h] at hr
      have hgo := ih (by omega) hr
      omega

/-- The next ENV of a sector is behind the last one, and before the end of the sector. -/
theorem getNextEnvAddr_bounds (hend : m.addr + m.bytes = hi) (hhi : hi ≤ envAreaSize)
    (hbytes : sectorSize ≤ m.bytes) (hpos : env.start ≠ failedAddr → m.addr + 16 ≤ env.start)
    (hlen : env.start ≠ failedAddr → env.crcIsOk = true → 0 < env.len ∧ env.len ≤ envAreaSize)
    (ha : getNextEnvAddr fl m env = a) (hne : a ≠ failedAddr) :
    m.addr + 16 ≤ a ∧ a < hi ∧ (env.start ≠ failedAddr → env.start < a) := by
  have harea : envAreaSize = 49152 := rfl
  have hhdr : sectorHdrDataSize = 16 := rfl
  have hsize : sectorSize = 4096 := rfl
  have hstop : add32 m.addr m.bytes = hi := by rw [add32_of_lt (by omega), hend]
  unfold getNextEnvAddr at ha
  rw [hstop, hhdr] at ha
  split at ha
  · exact absurd ha.symm hne
  split at ha
  · next hs =>
    rw [add32_of_lt (by omega)] at ha
    exact ⟨by omega, by omega, fun hc => absurd hs hc⟩
  · next hs =>
    split at ha
    · next hle =>
      have hstart := hpos hs
      -- the scan starts behind the last ENV
      obtain ⟨d, hd, hdpos⟩ : ∃ d, add32 env.start (if env.crcIsOk = true then env.len else 1) =
          env.start + d ∧ 0 < d := by
        by_cases hok : env.crcIsOk = true
        · obtain ⟨h1, h2⟩ := hlen hs hok
          rw [if_pos hok]
          exact ⟨env.len, add32_of_lt (by omega), h1⟩
        · rw [if_neg hok]
          exact ⟨1, add32_of_lt (by omega), Nat.one_pos⟩
      rw [hd, sub32_of_le (by omega)] at ha
      simp only at ha
      split at ha
      · exact absurd ha.symm hne
      · next hno =>
        unfold findNextEnvAddr at ha hno
        have hb := magicFrom_bounds (show 4 ≤ env.start + d by omega) (by rw [ha]; exact hne)
        rw [ha] at hb
        exact ⟨by omega, by omega, fun _ => by omega⟩
    · exact absurd ha.symm hne

/-- What is read of an ENV ends behind it, and only its first byte may be written. -/
theorem readEnv_bounds (fl : Memory) (env : EnvMeta) (a : Nat) :
    (readEnv fl { env with start := a }).1.start = a ∧
      0 < (readEnv fl { env with start := a }).1.len ∧
      (readEnv fl { env with start := a }).1.len ≤ envAreaSize ∧
      ∀ x, x ≠ a → (readEnv fl { env with start := a }).2 x = fl x := by
  have harea : envAreaSize = 49152 := rfl
  have hoff : envNameLenOffset = 16 := rfl
  unfold readEnv
  simp only
  split
  · refine ⟨rfl, show 0 < envHdrDataSize by decide, show envHdrDataSize ≤ envAreaSize by decide,
      fun x hx => ?_⟩
    simp only
    split
    · unfold writeStatus
      rw [if_neg (by decide), program_apart (by omega)]
    · rfl
  · next hbad =>
    obtain ⟨-, hbad⟩ := not_or.mp hbad
    obtain ⟨h1, h2⟩ := not_or.mp hbad
    split
    · exact ⟨rfl, by simp only; omega, by simp only; omega, fun _ _ => rfl⟩
    · exact ⟨rfl, by simp only; omega, by simp only; omega, fun _ _ => rfl⟩

theorem HeadAt.congr (h : HeadAt fl p) (hc : ∀ x, p ≤ x → fl' x = fl x) : HeadAt fl' p where
  aligned := h.aligned
  magic := (Bytes.Layout.load_congr fun x h1 _ => hc x h1).trans h.magic
  ready := by
    rw [hc p (Nat.le_refl p)]
    exact h.ready

theorem bytesAt_congr (hc : ∀ x, p ≤ x → fl' x = fl x) : bytesAt fl' p = bytesAt fl p := by
  have hload : sectorHdr.load fl' .combined p = sectorHdr.load fl .combined p :=
    Bytes.Layout.load_congr fun x h1 _ => hc x h1
  unfold bytesAt
  rw [hload]

theorem Sectors.le (h : Sectors fl o) : o ≤ envAreaSize := by
  induction h with
  | stop => exact Nat.le_of_eq (Nat.zero_add _)
  | sector _ _ _ ih => omega

theorem head_bytes (hb : bytesAt fl p ≤ envAreaSize) : (m.head fl p).bytes = bytesAt fl p := by
  have harea : envAreaSize = 49152 := rfl
  have hsize : sectorSize = 4096 := rfl
  by_cases hc : sectorHdr.load fl .combined p = sectorNotCombined
  · have h : (m.head fl p).bytes = sectorSize := if_pos hc
    unfold bytesAt
    rw [h, if_pos hc, Nat.one_mul]
  · have h : (m.head fl p).bytes = mul32 (sectorHdr.load fl .combined p) sectorSize := if_neg hc
    unfold bytesAt at hb ⊢
    rw [if_neg hc] at hb
    rw [h, if_neg hc]
    unfold mul32
    omega

theorem behind_head (hb : p + bytesAt fl p ≤ envAreaSize) :
    Behind (m.head fl p) (p + bytesAt fl p) := by
  have harea : envAreaSize = 49152 := rfl
  have hp : p ≠ failedAddr := by
    unfold failedAddr
    omega
  unfold Behind getNextSectorAddr
  rw [show (m.head fl p).addr = p from rfl, if_neg hp, head_bytes (by omega), add32_of_lt (by omega)]
  simp only [envStartAddr, Nat.zero_add]

/-- In a sector: `k` is what is left of it. -/
theorem sector_walk {k : Nat} (hend : m.addr + m.bytes = hi) (hhi : hi ≤ envAreaSize)
    (hbytes : sectorSize ≤ m.bytes) (hpos : env.start ≠ failedAddr → m.addr + 16 ≤ env.start)
    (hlen : env.start ≠ failedAddr → env.crcIsOk = true → 0 < env.len ∧ env.len ≤ envAreaSize)
    (hk : hi < (if env.start = failedAddr then 0 else env.start) + k)
    (hrest : ∀ fl', (∀ x, hi ≤ x → fl' x = fl x) → ∀ env, ∃ es, Walk false fl' m env es) :
    ∃ es, Walk true fl m env es := by
  have harea : envAreaSize = 49152 := rfl
  have hfail : failedAddr = 4294967295 := rfl
  induction k generalizing fl env with
  | zero =>
    -- the walk has left the sector
    by_cases ha : getNextEnvAddr fl m env = failedAddr
    · obtain ⟨es, hw⟩ := hrest fl (fun _ _ => rfl) { env with start := failedAddr }
      exact ⟨es, .leave ha hw⟩
    · have hb := getNextEnvAddr_bounds hend hhi hbytes hpos hlen rfl ha
      split at hk
      · omega
      · next hs => exact absurd (hb.2.2 hs) (by omega)
  | succ k ih =>
    by_cases ha : getNextEnvAddr fl m env = failedAddr
    · obtain ⟨es, hw⟩ := hrest fl (fun _ _ => rfl) { env with start := failedAddr }
      exact ⟨es, .leave ha hw⟩
    · obtain ⟨h1, h2, h3⟩ := getNextEnvAddr_bounds hend hhi hbytes hpos hlen rfl ha
      obtain ⟨hs, hpos', hlen', hfl⟩ :=
        readEnv_bounds fl env (getNextEnvAddr fl m env)
      have hk' : hi < getNextEnvAddr fl m env + k := by
        split at hk
        · omega
        · next hne =>
          have hlt := h3 hne
          omega
      have hgo : ∃ es, Walk true (readEnv fl { env with start := getNextEnvAddr fl m env }).2 m
          (readEnv fl { env with start := getNextEnvAddr fl m env }).1 es :=
        ih (fun _ => by rw [hs]; exact h1) (fun _ _ => ⟨hpos', hlen'⟩)
          (by rw [hs, if_neg ha]; exact hk')
          fun fl' hc env => hrest fl' (fun x hx => (hc x hx).trans (hfl x (by omega))) env
      obtain ⟨es, hw⟩ := hgo
      exact ⟨_, .env rfl ha hw⟩

/-- Whatever is in the sectors, the walk comes to an end. -/
theorem Sectors.walk (h : Sectors fl o) (hc : ∀ x, o ≤ x → fl' x = fl x) (hm : Behind m o)
    (env : EnvMeta) : ∃ es, Walk false fl' m env es := by
  have harea : envAreaSize = 49152 := rfl
  have hfail : failedAddr = 4294967295 := rfl
  have hsize : sectorSize = 4096 := rfl
  induction h generalizing fl' m env with
  | stop =>
    refine ⟨[], .stop ?_⟩
    rw [hm]
    exact if_neg (Nat.lt_irrefl _)
  | @sector p hh hpos hrest ih =>
    have hle := hrest.le
    have hbytes := bytesAt_congr (p := p) hc
    have hmin : sectorSize ≤ bytesAt fl p := by
      unfold bytesAt at hpos ⊢
      exact Nat.le_mul_of_pos_left _ (Nat.pos_of_mul_pos_right hpos)
    have hnext : getNextSectorAddr m = p := hm.trans (if_pos (by omega))
    have hh' := hh.congr hc
    have hbehind : Behind (m.head fl' p) (p + bytesAt fl p) := by
      rw [← hbytes]
      exact behind_head (by omega)
    have hgo : ∀ fl'', (∀ x, p + bytesAt fl p ≤ x → fl'' x = fl' x) → ∀ env, ∃ es,
        Walk false fl'' (m.head fl' p) env es := fun fl'' hc' env =>
      ih (fun x hx => (hc' x hx).trans (hc x (by omega))) hbehind env
    by_cases hs : (m.head fl' p).store = .empty
    · obtain ⟨es, hw⟩ := hgo fl' (fun _ _ => rfl) env
      exact ⟨es, .skip hnext (by omega) hh' hs hw⟩
    · have hb : (m.head fl' p).bytes = bytesAt fl p := by rw [head_bytes (by omega), hbytes]
      have hend : (m.head fl' p).addr + (m.head fl' p).bytes = p + bytesAt fl p := by
        rw [hb]
        rfl
      have hk : p + bytesAt fl p < (if failedAddr = failedAddr then 0 else failedAddr) +
          (envAreaSize + 1) := by
        rw [if_pos rfl]
        omega
      have hsec : ∃ es, Walk true fl' (m.head fl' p) { env with start := failedAddr } es :=
        sector_walk hend hle (by omega) (fun hc => absurd rfl hc) (fun hc => absurd rfl hc) hk hgo
      obtain ⟨es, hw⟩ := hsec
      exact ⟨es, .enter hnext (by omega) hh' hs hw⟩

/-- Valid sectors have valid headers. -/
theorem From.toSectors {l : List Sector} (h : From fl o l) : Sectors fl o := by
  induction l generalizing o with
  | nil =>
    have ht := h.total
    rw [Tiling.total_nil, Nat.add_zero] at ht
    rw [ht, ← Nat.zero_add envAreaSize]
    exact .stop
  | cons s l ih =>
    have hat := h.head
    have hb : bytesAt fl o = s.bytes := by
      unfold bytesAt
      rw [hat.combined]
      rfl
    have hpos := s.bytes_pos
    refine .sector ⟨Nat.mod_eq_zero_of_dvd h.aligned, hat.magic, ?_⟩ (by omega)
      (hb ▸ ih h.tail)
    rw [hat.store, StoreStatus.ofCode_code]
    exact s.ready

/-! ## Valid sectors -/

/-- The names of the ENVs in use. -/
def namesOf (l : List Sector) : List (List UInt8) :=
  (envsOf l).filterMap fun x => if x.2.status = .write then some x.2.name else none

theorem visit_keepCb (l : List (Nat × Env)) (name : List UInt8) (acc : List EnvMeta) :
    (visit keepCb l name acc).1 = none ∧ (visit keepCb l name acc).2.2.filterMap EnvMeta.seen =
      acc.filterMap EnvMeta.seen ++
        l.filterMap fun x => if x.2.status = .write then some x.2.name else none := by
  induction l generalizing name acc with
  | nil => exact ⟨rfl, (List.append_nil _).symm⟩
  | cons x l ih =>
    have hseen : (x.2.toMeta x.1 (name.drop x.2.name.length)).seen =
        if x.2.status = .write then some x.2.name else none := by
      unfold EnvMeta.seen EnvMeta.Usable
      simp [Env.toMeta]
    obtain ⟨h1, h2⟩ := ih (x.2.name ++ name.drop x.2.name.length)
      (acc ++ [x.2.toMeta x.1 (name.drop x.2.name.length)])
    rw [visit_cons, keepCb, if_neg Bool.false_ne_true]
    refine ⟨h1, ?_⟩
    rw [h2, List.filterMap_append, List.append_assoc, List.filterMap_cons, hseen, List.filterMap_cons]
    congr 1
    split <;> rfl

/-- Of valid sectors, the ENVs in use are seen. -/
theorem liveNames_area {l : List Sector} (hl : Area fl l) (hn : envAreaSize ≤ n)
    (sector : SectorMeta) (env : EnvMeta) : liveNames n fl sector env = some (namesOf l) := by
  have hlen := hl.start.length_le
  have hsize : sectorSize = 4096 := rfl
  have harea : envAreaSize = 49152 := rfl
  have hvisit : Visited (envIterator n keepCb sector env fl []) fl
      (visit keepCb (envsOf l) env.name []) :=
    envIteratorFrom_visited (behind_start rfl) hl.start (by omega)
  obtain ⟨m, hr, -, -⟩ := hvisit
  unfold liveNames
  rw [hr, Option.map_some]
  exact congrArg some (visit_keepCb (envsOf l) env.name []).2

end Tudu.Flash
