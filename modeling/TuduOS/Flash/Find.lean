import TuduOS.Flash.Format

/-!
# Finding an environment variable

`env_iterator` reads the ENVs of all sectors, `find_env` stops at the first one that can be used and
has the name. A name is compared with what is in the name buffer, in which a shorter name leaves the
end of a longer one that was read before.

* `findEnv_eq`: of valid sectors, `find_env` finds the ENV with the name, and changes nothing.
-/

namespace Tudu.Flash

open Bytes (Memory)
open Nor Tiling

/-- Whether `strncmp` finds no difference in `k` characters. Behind its end a string has zeros. -/
def strncmpEq : List UInt8 → List UInt8 → Nat → Bool
  | _, _, 0 => true
  | a, b, k + 1 =>
    a.headD 0 == b.headD 0 && (a.headD 0 == 0 || strncmpEq a.tail b.tail k)

section Iterator

variable {σ : Type}

/-- The ENVs of a sector behind `env`. The callback says whether to stop. -/
def envsFrom (callback : EnvMeta → σ → Bool × σ) :
    Nat → SectorMeta → EnvMeta → Memory → σ → Option (Bool × EnvMeta × Memory × σ)
  | 0, _, _, _, _ => none
  | n + 1, sector, env, fl, s =>
    let addr := getNextEnvAddr fl sector env
    if addr = failedAddr then some (false, { env with start := failedAddr }, fl, s)
    else
      let r := readEnv fl { env with start := addr }
      let c := callback r.1 s
      if c.1 then some (true, r.1, r.2, c.2) else envsFrom callback n sector r.1 r.2 c.2

/-- The sectors behind `sector`. -/
def envIteratorFrom (callback : EnvMeta → σ → Bool × σ) :
    Nat → SectorMeta → EnvMeta → Memory → σ → Option (Bool × EnvMeta × Memory × σ)
  | 0, _, _, _, _ => none
  | n + 1, sector, env, fl, s =>
    let secAddr := getNextSectorAddr sector
    if secAddr = failedAddr then some (false, env, fl, s)
    else do
      let r ← readSectorMetaData n fl secAddr sector false
      if r.1.checkOk = true ∧ (r.1.store = .inUse ∨ r.1.store = .full) then do
        let e ← envsFrom callback n r.1 { env with start := failedAddr } r.2 s
        if e.1 then some e else envIteratorFrom callback n r.1 e.2.1 e.2.2.1 e.2.2.2
      else envIteratorFrom callback n r.1 env r.2 s

/-- The first component tells whether the callback has stopped the search. `sector`: what is on the
stack. -/
def envIterator (n : Nat) (callback : EnvMeta → σ → Bool × σ) (sector : SectorMeta) (env : EnvMeta)
    (fl : Memory) (s : σ) : Option (Bool × EnvMeta × Memory × σ) :=
  envIteratorFrom callback n { sector with addr := failedAddr } env fl s

end Iterator

/-- `max_len` has 8 bits. -/
def findEnvCb (key : List UInt8) (env : EnvMeta) (findOk : Bool) : Bool × Bool :=
  let maxLen := max (key.length % 256) env.nameLen
  if env.crcIsOk = true ∧ env.status = .write ∧ strncmpEq env.name key maxLen = true then (true, true)
  else (false, findOk)

def findEnv (n : Nat) (fl : Memory) (key : List UInt8) (sector : SectorMeta) (env : EnvMeta) :
    Option (Bool × EnvMeta × Memory) :=
  (envIterator n (findEnvCb key) sector env fl false).map fun r => (r.2.2.2, r.2.1, r.2.2.1)

/-! ## The search in valid sectors -/

/-- What the iterator does with the ENVs: the one that it stops at, or the name buffer behind them. -/
def visit {σ : Type} (callback : EnvMeta → σ → Bool × σ) :
    List (Nat × Env) → List UInt8 → σ → Option EnvMeta × List UInt8 × σ
  | [], name, s => (none, name, s)
  | x :: l, name, s =>
    let m := x.2.toMeta x.1 (name.drop x.2.name.length)
    let c := callback m s
    if c.1 then (some m, m.name, c.2) else visit callback l m.name c.2

variable {σ : Type} {callback : EnvMeta → σ → Bool × σ} {fl : Memory} {a p o n : Nat} {e : Env}
  {m : SectorMeta} {env : EnvMeta} {t : σ} {key : List UInt8}

theorem visit_cons (x : Nat × Env) (l : List (Nat × Env)) (name : List UInt8) (t : σ) :
    visit callback (x :: l) name t =
      if (callback (x.2.toMeta x.1 (name.drop x.2.name.length)) t).1 then
        (some (x.2.toMeta x.1 (name.drop x.2.name.length)), x.2.name ++ name.drop x.2.name.length,
          (callback (x.2.toMeta x.1 (name.drop x.2.name.length)) t).2)
      else visit callback l (x.2.name ++ name.drop x.2.name.length)
        (callback (x.2.toMeta x.1 (name.drop x.2.name.length)) t).2 := rfl

theorem visit_append (l k : List (Nat × Env)) (name : List UInt8) (t : σ) :
    visit callback (l ++ k) name t =
      if (visit callback l name t).1.isSome then visit callback l name t
      else visit callback k (visit callback l name t).2.1 (visit callback l name t).2.2 := by
  induction l generalizing name t with
  | nil => rfl
  | cons x l ih =>
    rw [List.cons_append, visit_cons, visit_cons]
    by_cases hc : (callback (x.2.toMeta x.1 (name.drop x.2.name.length)) t).1 = true
    · simp only [hc, if_true, Option.isSome_some]
    · simp only [hc, Bool.false_eq_true, if_false]
      exact ih _ _

/-- How the iterator of a sector ends. -/
def Visited (r : Option (Bool × EnvMeta × Memory × σ)) (fl : Memory)
    (v : Option EnvMeta × List UInt8 × σ) : Prop :=
  ∃ m, r = some (v.1.isSome, m, fl, v.2.2) ∧ m.name = v.2.1 ∧ ∀ e, v.1 = some e → m = e

theorem envsFrom_visited {l : List Env} {stop : Nat} (hn : l.length < n) (hs : m.store ≠ .empty)
    (hstop : m.addr + m.bytes = stop) (h32 : stop ≤ envAreaSize)
    (hin : a + total Env.len l ≤ stop) (ha : sectorHdrDataSize ≤ a)
    (hl : ∀ x ∈ place Env.len a l, EnvAt fl x.1 x.2)
    (herased : Erased fl (a + total Env.len l) (stop - (a + total Env.len l)))
    (hfirst : getNextEnvAddr fl m env = if l = [] then failedAddr else a) :
    Visited (envsFrom callback n m env fl t) fl (visit callback (place Env.len a l) env.name t) := by
  unfold envAreaSize sectorSize sectorNum at h32
  induction l generalizing n a env t with
  | nil =>
    obtain ⟨n, rfl⟩ : ∃ k, n = k + 1 := ⟨n - 1, by rw [List.length_nil] at hn; omega⟩
    unfold envsFrom
    rw [hfirst, if_pos rfl]
    exact ⟨_, if_pos rfl, rfl, fun _ hc => by cases hc⟩
  | cons e l ih =>
    obtain ⟨n, rfl⟩ : ∃ k, n = k + 1 := ⟨n - 1, by rw [List.length_cons] at hn; omega⟩
    rw [total_cons] at hin herased
    rw [place_cons] at hl
    rw [← Nat.add_assoc] at herased hin
    have h0 : a ≠ failedAddr := by unfold failedAddr; omega
    obtain ⟨hrest, hread⟩ := first_env hl (Nat.le_trans (Nat.le_add_right ..) hin) h32 env
    unfold envsFrom
    rw [hfirst, if_neg (List.cons_ne_nil _ _), place_cons, visit_cons]
    simp only [if_neg h0, hread]
    by_cases hc : (callback (e.toMeta a (env.name.drop e.name.length)) t).1 = true
    · simp only [hc, if_true]
      exact ⟨_, rfl, rfl, fun _ h => (by cases h; rfl)⟩
    · simp only [hc, Bool.false_eq_true, if_false]
      exact ih (by rw [List.length_cons] at hn; omega) hin (by omega) hrest herased
        (getNextEnvAddr_next hs hstop (by omega) hin ha hrest herased _)

theorem envIteratorFrom_visited {l : List Sector} (hm : Behind m o) (hl : From fl o l)
    (hn : envAreaSize + l.length < n + sectorSize) :
    Visited (envIteratorFrom callback n m env fl t) fl
      (visit callback ((place Sector.bytes o l).flatMap fun x =>
        place Env.len (x.1 + sectorHdrDataSize) x.2.envs) env.name t) := by
  have hsize : sectorSize = 4096 := rfl
  have harea : envAreaSize = 49152 := rfl
  have hhdr : sectorHdrDataSize = 16 := rfl
  induction l generalizing n m o env t with
  | nil =>
    obtain ⟨n, rfl⟩ : ∃ k, n = k + 1 := ⟨n - 1, by omega⟩
    unfold envIteratorFrom
    rw [hm.none hl]
    exact ⟨_, if_pos rfl, rfl, fun _ hc => by cases hc⟩
  | cons s l ih =>
    rw [List.length_cons] at hn
    obtain ⟨n, rfl⟩ : ∃ k, n = k + 1 := ⟨n - 1, by omega⟩
    obtain ⟨hnext, hne⟩ := hm.some hl
    have hbound := hl.bound
    have hfits := s.used_le
    have hlen := s.length_envs_le
    have hused : s.used = total Env.len s.envs := rfl
    have hgo : ∀ (m' : SectorMeta) env t, m'.addr = o → m'.combined = s.combined →
        Visited (envIteratorFrom callback n m' env fl t) fl
          (visit callback ((place Sector.bytes (o + s.bytes) l).flatMap fun x =>
            place Env.len (x.1 + sectorHdrDataSize) x.2.envs) env.name t) :=
      fun m' env t ha hc => ih (behind_sector ha hc hl.bound) hl.tail (by omega)
    unfold envIteratorFrom
    simp only [hnext, if_neg hne, readSectorMetaData_false hl.head hl.aligned, Option.bind_eq_bind,
      Option.bind_some, place_cons, List.flatMap_cons, visit_append]
    by_cases hs : s.store = .empty
    · -- an empty sector has no ENVs
      have henvs : s.envs = [] := s.empty_iff.mp hs
      rw [if_neg, henvs]
      · exact hgo _ env t rfl rfl
      · rintro ⟨-, hc | hc⟩
        · exact absurd (hc.symm.trans hs) StoreStatus.noConfusion
        · exact absurd (hc.symm.trans hs) StoreStatus.noConfusion
    · have hstore : s.store = .inUse ∨ s.store = .full := by
        have hready := s.ready
        cases hst : s.store with
        | unused => exact absurd hst hready
        | empty => exact absurd hst hs
        | inUse => exact .inl rfl
        | full => exact .inr rfl
      have hne' : s.envs ≠ [] := fun hc => hs (s.empty_iff.mpr hc)
      rw [if_pos ⟨rfl, hstore⟩]
      have hbytes : SectorMeta.bytes { s.toMeta o with remain := m.remain, emptyEnv := m.emptyEnv } =
          s.bytes := SectorMeta.bytes_eq rfl (by omega)
      have hend : ({ s.toMeta o with remain := m.remain, emptyEnv := m.emptyEnv } : SectorMeta).addr +
          SectorMeta.bytes { s.toMeta o with remain := m.remain, emptyEnv := m.emptyEnv } =
          o + s.bytes := by
        rw [hbytes]
        rfl
      have hvisit : Visited (envsFrom callback n
          { s.toMeta o with remain := m.remain, emptyEnv := m.emptyEnv }
          { env with start := failedAddr } fl t) fl
          (visit callback (place Env.len (o + sectorHdrDataSize) s.envs) env.name t) :=
        envsFrom_visited (by omega) hs hend hbound (by omega) (by omega) hl.head.envs
          (hl.head.erased.mono (by omega) (by omega))
          ((getNextEnvAddr_first hs (by simp only [Sector.toMeta]; omega) rfl).trans
            (if_neg hne').symm)
      obtain ⟨m', hr, hname, hstop⟩ := hvisit
      rw [hr, Option.bind_some]
      cases hv : (visit callback (place Env.len (o + sectorHdrDataSize) s.envs) env.name t).1 with
      | none =>
        rw [hv] at hr
        simp only [Option.isSome_none, Bool.false_eq_true, if_false, ← hname]
        exact hgo _ m' _ rfl rfl
      | some e =>
        simp only [Option.isSome_some, if_true]
        exact ⟨m', by rw [hv]; rfl, hname, hstop⟩

/-! ## Names -/

theorem strncmpEq_self (l rest : List UInt8) : strncmpEq (l ++ rest) l l.length = true := by
  induction l with
  | nil => rfl
  | cons b l ih => simp [strncmpEq, ih]

/-- The two names differ before the end of both. -/
def Differ (name key : List UInt8) : Prop :=
  ∃ (i : Nat) (b c : UInt8), name[i]? = some b ∧ key[i]? = some c ∧ b ≠ c

theorem strncmpEq_differ {name rest : List UInt8} {k : Nat} (h : Differ name key) (h0 : 0 ∉ key)
    (hk : name.length ≤ k) : strncmpEq (name ++ rest) key k = false := by
  obtain ⟨i, b, c, hb, hc, hne⟩ := h
  induction i generalizing name key k with
  | zero =>
    cases name with
    | nil => cases hb
    | cons b' name =>
      cases key with
      | nil => cases hc
      | cons c' key =>
        obtain ⟨k, rfl⟩ : ∃ j, k = j + 1 := ⟨k - 1, by rw [List.length_cons] at hk; omega⟩
        cases hb
        cases hc
        simp [strncmpEq, hne]
  | succ i ih =>
    cases name with
    | nil => cases hb
    | cons b' name =>
      cases key with
      | nil => cases hc
      | cons c' key =>
        obtain ⟨k, rfl⟩ : ∃ j, k = j + 1 := ⟨k - 1, by rw [List.length_cons] at hk; omega⟩
        rw [List.mem_cons, not_or] at h0
        rw [List.length_cons] at hk
        have hrest := ih h0.2 (k := k) (by omega) hb hc
        by_cases hbc : b' = c'
        · subst hbc
          simp [strncmpEq, hrest, Ne.symm h0.1]
        · simp [strncmpEq, hbc]

/-- `find_env` can stop only at an ENV that is in use and whose name agrees with the key. -/
theorem visit_findEnvCb {pre : List (Nat × Env)} (post : List (Nat × Env)) (a : Nat) (hw : e.status = .write)
    (hname : e.name.length < 256) (h0 : 0 ∉ e.name)
    (hpre : ∀ x ∈ pre, x.2.status = .write → Differ x.2.name e.name) (name : List UInt8) :
    ∃ rest, visit (findEnvCb e.name) (pre ++ (a, e) :: post) name false =
      (some (e.toMeta a rest), e.name ++ rest, true) := by
  induction pre generalizing name with
  | nil =>
    have hcb : ∀ rest, findEnvCb e.name (e.toMeta a rest) false = (true, true) := by
      intro rest
      have hmax : max (e.name.length % 256) e.name.length = e.name.length := by omega
      unfold findEnvCb
      simp only [Env.toMeta, hmax, hw, strncmpEq_self, and_self, if_true]
    exact ⟨_, by rw [List.nil_append, visit_cons, hcb, if_pos rfl]⟩
  | cons x pre ih =>
    have hcb : ∀ rest, findEnvCb e.name (x.2.toMeta x.1 rest) false = (false, false) := by
      intro rest
      unfold findEnvCb
      refine if_neg fun hc => ?_
      have hno : strncmpEq (x.2.name ++ rest) e.name _ = false :=
        strncmpEq_differ (hpre x List.mem_cons_self hc.2.1) h0
          (Nat.le_max_right (e.name.length % 256) x.2.name.length)
      exact absurd (hno.symm.trans hc.2.2) Bool.false_ne_true
    rw [List.cons_append, visit_cons, hcb, if_neg Bool.false_ne_true]
    exact ih (fun y hy => hpre y (List.mem_cons_of_mem _ hy)) _

/-- The first ENV with the name, if the names in use before it differ from it before their end. -/
theorem findEnv_eq {l : List Sector} {pre post : List (Nat × Env)} (hl : Area fl l)
    (hn : envAreaSize ≤ n) (hpost : envsOf l = pre ++ (a, e) :: post) (hw : e.status = .write)
    (hname : e.name.length < 256) (h0 : 0 ∉ e.name)
    (hpre : ∀ x ∈ pre, x.2.status = .write → Differ x.2.name e.name) (sector : SectorMeta)
    (env : EnvMeta) : ∃ rest, findEnv n fl e.name sector env = some (true, e.toMeta a rest, fl) := by
  have hlen := hl.start.length_le
  have hsize : sectorSize = 4096 := rfl
  have harea : envAreaSize = 49152 := rfl
  obtain ⟨rest, hv⟩ := visit_findEnvCb post a hw hname h0 hpre env.name
  have hvisit : Visited (envIterator n (findEnvCb e.name) sector env fl false) fl
      (visit (findEnvCb e.name) (envsOf l) env.name false) :=
    envIteratorFrom_visited (behind_start rfl) hl.start (by omega)
  obtain ⟨m, hr, -, hm⟩ := hvisit
  refine ⟨rest, ?_⟩
  unfold findEnv
  rw [hr, Option.map_some]
  change some ((visit (findEnvCb e.name) (envsOf l) env.name false).2.2, m, fl) = _
  rw [hpost, hv] at hm ⊢
  rw [hm _ rfl]

/-! ## An area with one ENV -/

def oneEnv : Env := ⟨.write, [0x61], [1, 2, 3]⟩

theorem oneEnv_filled : StoreStatus.inUse = .empty ↔ [oneEnv] = [] := by
  constructor <;> intro h <;> cases h

theorem oneEnv_fits : sectorHdrDataSize + total Env.len [oneEnv] ≤
    (if sectorNotCombined = sectorNotCombined then 1 else sectorNotCombined) * sectorSize := by
  decide

def oneSector : Sector where
  store := .inUse
  dirty := .clean
  combined := sectorNotCombined
  envs := [oneEnv]
  ready := StoreStatus.noConfusion
  combined_pos := sectorNotCombined_pos
  empty_iff := oneEnv_filled
  fits := oneEnv_fits

def oneBytes : List UInt8 :=
  [0x3F, 0x7F, 0xFF, 0xFF, 0x45, 0x46, 0x34, 0x30, 0xFF, 0xFF, 0xFF, 0xFF, 0xFF, 0xFF, 0xFF, 0xFF,
    0x3F, 0xFF, 0xFF, 0xFF, 0x4B, 0x56, 0x34, 0x30, 28, 0, 0, 0, 0x7f, 0xc, 0xab, 0xf5,
    1, 0xFF, 0xFF, 0xFF, 3, 0, 0, 0, 0x61, 1, 2, 3]

/-- The first sector has the bytes, the others are empty. -/
def oneFlash : Memory := fun x =>
  if x < 4096 then oneBytes.getD x 0xFF else formatArea (fun _ => 0xFF) x

theorem oneEnv_at : EnvAt oneFlash 16 oneEnv where
  status := by decide
  magic := by decide
  len := by decide
  crc := by decide +kernel
  nameLen := by decide
  valueLen := by decide
  name := by decide
  value := by decide

theorem oneSector_at : SectorAt oneFlash 0 oneSector where
  magic := by decide
  store := by decide
  dirty := by decide
  combined := by decide
  envs x hx := by
    rcases List.mem_singleton.mp hx with rfl
    exact oneEnv_at
  erased x h1 h2 := by
    have h1' : 44 ≤ x := h1
    have h2' : x < 44 + 4052 := h2
    unfold oneFlash
    rw [if_pos (by omega), List.getD_eq_default]
    exact h1'

theorem oneFlash_area : Area oneFlash (oneSector :: List.replicate 11 emptySector) where
  total := rfl
  sectors x hx := by
    rcases List.mem_cons.mp hx with rfl | hx
    · exact oneSector_at
    · obtain ⟨i, hi, rfl⟩ := place_replicate _ _ _ hx
      have hsec : sectorSize = 4096 := rfl
      have hb : oneSector.bytes = 4096 := rfl
      have hs : envStartAddr = 0 := rfl
      have hat : SectorAt (formatSectors (fun _ => 0xFF) 12) (envStartAddr + (i + 1) * sectorSize) _ :=
        formatSectors_at (by omega)
      have hmul : (i + 1) * sectorSize = i * sectorSize + sectorSize := Nat.succ_mul _ _
      have haddr : envStartAddr + oneSector.bytes + i * sectorSize =
          envStartAddr + (i + 1) * sectorSize := by omega
      rw [haddr]
      exact hat.congr fun y h1 h2 => if_neg (by omega)

end Tudu.Flash
