import TuduOS.Flash.Walk

/-!
# Listing the XIP file system (`xipfs.c`, `ef_env.c`)

`env_get_fs_getdents` goes on from where the last call was: the ENV and the address of its sector
are in the private data of the directory, what was read of the sector is in a static variable.
`dfs_xipfs_getdents` fills a buffer with what it gets. At the end of the ENVs it returns 0, also if
there are entries in the buffer.

* `next_spec`: a call goes to the next ENV that can be used.
* `listing_iff`: the directory is listed completely if and only if the entries of a buffer divide
  the number of the ENVs.
-/

namespace Tudu.Xipfs

open Bytes (Memory)
open Flash

def einval : Int := 22
def dtReg : Nat := 1
def dfsPathMax : Nat := 256
/-- `sizeof(struct dirent)` -/
def direntSize : Nat := 4 + dfsPathMax

/-- A `struct dirent`, its name up to the zero that ends it. -/
structure Dirent where
  dType : Nat
  dNamlen : Nat
  dReclen : Nat
  dName : List UInt8
  deriving DecidableEq

/-- The state of a listing. `sector` is static. -/
structure Dir where
  env : EnvMeta
  secAddr : Nat
  sector : SectorMeta

/-- The next sector that is not empty. -/
def nextSector : Nat → Memory → SectorMeta → EnvMeta → Option (Dir × Memory)
  | 0, _, _, _ => none
  | n + 1, fl, sector, env =>
    let secAddr := getNextSectorAddr sector
    if secAddr = failedAddr then some (⟨env, failedAddr, sector⟩, fl)
    else do
      let r ← readSectorMetaData n fl secAddr sector false
      if r.1.checkOk = false ∨ r.1.store = .empty then nextSector n r.2 r.1 env
      else some (⟨{ env with start := failedAddr }, secAddr, r.1⟩, r.2)

/-- The loop of `env_get_fs_getdents` -/
def getdentsFrom : Nat → Memory → Dir → Option (Dir × Memory)
  | 0, _, _ => none
  | n + 1, fl, d =>
    let addr := getNextEnvAddr fl d.sector d.env
    if d.secAddr ≠ failedAddr ∧ addr ≠ failedAddr then
      let r := readEnv fl { d.env with start := addr }
      if r.1.Usable then some ({ d with env := r.1 }, r.2)
      else getdentsFrom n r.2 { d with env := r.1 }
    else do
      let env := if d.secAddr ≠ failedAddr then { d.env with start := failedAddr } else d.env
      let r ← nextSector n fl d.sector env
      if r.1.secAddr = failedAddr then some r else getdentsFrom n r.2 r.1

def envGetFsGetdents (n : Nat) (fl : Memory) (d : Dir) : Option (Bool × Dir × Memory) :=
  (getdentsFrom n fl { d with sector := { d.sector with addr := d.secAddr } }).map fun r =>
    (decide (r.1.secAddr ≠ failedAddr), r)

/-- The bytes up to a zero. -/
def cstr (l : List UInt8) : List UInt8 := l.takeWhile (· ≠ 0)

def rtStrncpy (src : List UInt8) (n : Nat) : List UInt8 :=
  cstr (src.take n) ++ List.replicate (n - (cstr (src.take n)).length) 0

def dirent (env : EnvMeta) : Dirent :=
  ⟨dtReg, env.nameLen, direntSize, rtStrncpy env.name env.nameLen ++ [0]⟩

def Dirent.name (d : Dirent) : List UInt8 := cstr d.dName

/-- The entries are written to the buffer until it is full, or there are no more. -/
def fillDents (n : Nat) : Nat → Memory → Dir → List Dirent → Option (Bool × List Dirent × Dir × Memory)
  | 0, fl, d, l => some (true, l, d, fl)
  | k + 1, fl, d, l => do
    let r ← envGetFsGetdents n fl d
    if r.1 then fillDents n k r.2.2 r.2.1 (l ++ [dirent r.2.1.env]) else some (false, l, r.2)

/-- The number that is returned, and the entries in the buffer. -/
def dfsXipfsGetdents (n : Nat) (fl : Memory) (d : Dir) (count : Nat) :
    Option (Int × List Dirent × Dir × Memory) :=
  if count / direntSize * direntSize = 0 then some (-einval, [], d, fl)
  else (fillDents n (count / direntSize) fl d []).map fun r =>
    (if r.1 then ((count / direntSize * direntSize : Nat) : Int) else 0, r.2)

/-- `dfs_xipfs_open` of the root directory -/
def openRoot (d : Dir) : Dir :=
  { d with env := { d.env with start := failedAddr }, secAddr := failedAddr }

/-- Calls until one returns 0: the entries that they return, by their number of bytes. -/
def listing (n count : Nat) : Nat → Memory → Dir → Option (List Dirent)
  | 0, _, _ => none
  | k + 1, fl, d => do
    let r ← dfsXipfsGetdents n fl d count
    if r.1 = 0 then some []
    else
      let rest ← listing n count k r.2.2.2 r.2.2.1
      some (r.2.1.take (r.1 / direntSize).toNat ++ rest)

/-! ## One entry -/

variable {fl : Memory} {d : Dir} {m : SectorMeta} {env : EnvMeta} {b : Bool} {n count : Nat}
  {es : List (Option (List UInt8))} {names : List (List UInt8)}

theorem cstr_take_append_zeros (l : List UInt8) (k : Nat) :
    cstr (cstr l ++ List.replicate k 0 ++ [0]) = cstr l := by
  unfold cstr
  rw [List.append_assoc, List.takeWhile_append_of_pos]
  · cases k with
    | zero => simp
    | succ k => simp [List.replicate_succ]
  · intro b hb
    exact List.mem_takeWhile_imp (p := fun x => decide (x ≠ 0)) hb

/-- The entry has the name of the ENV. -/
theorem dirent_name {name : List UInt8} (h : env.seen = some name) : (dirent env).name = cstr name := by
  unfold EnvMeta.seen at h
  split at h
  · cases h
    exact cstr_take_append_zeros _ _
  · cases h

/-- The names that are left of a listing. -/
def Left (fl : Memory) (d : Dir) (names : List (List UInt8)) : Prop :=
  ∃ es, names = es.filterMap id ∧
    ((d.secAddr = failedAddr ∧ Walk false fl { d.sector with addr := failedAddr } d.env es) ∨
      (d.secAddr ≠ failedAddr ∧ d.sector.addr = d.secAddr ∧ Walk true fl d.sector d.env es))

/-- What a call comes to. -/
def Next (names : List (List UInt8)) (r : Dir × Memory) : Prop :=
  (names = [] ∧ r.1.secAddr = failedAddr) ∨
    ∃ name rest, names = name :: rest ∧ r.1.secAddr ≠ failedAddr ∧ r.1.env.seen = some name ∧
      Left r.2 r.1 rest

/-- The loop follows the walk. -/
theorem getdentsFrom_next (h : Walk b fl m env es) (hm : b = true → m.addr ≠ failedAddr) :
    ∃ r N, Next (es.filterMap id) r ∧ ∀ k n, N ≤ k → N ≤ n →
      (if b then getdentsFrom n fl ⟨env, m.addr, m⟩
        else (nextSector k fl m env).bind fun r =>
          if r.1.secAddr = failedAddr then some r else getdentsFrom n r.2 r.1) = some r := by
  induction h with
  | @env fl m env a es ha hne hw ih =>
    have hm := hm rfl
    by_cases hu : (readEnv fl { env with start := a }).1.Usable
    · -- the loop stops here
      refine ⟨(⟨(readEnv fl { env with start := a }).1, m.addr, m⟩,
        (readEnv fl { env with start := a }).2), 1, ?_, fun k n hk hn => ?_⟩
      · have hseen : (readEnv fl { env with start := a }).1.seen =
            some ((readEnv fl { env with start := a }).1.name.take
              (readEnv fl { env with start := a }).1.nameLen) := if_pos hu
        rw [hseen]
        exact .inr ⟨_, es.filterMap id, rfl, hm, hseen, es, rfl, .inr ⟨hm, rfl, hw⟩⟩
      · obtain ⟨n, rfl⟩ : ∃ j, n = j + 1 := ⟨n - 1, by omega⟩
        rw [if_pos rfl]
        unfold getdentsFrom
        simp only [ha]
        rw [if_pos ⟨hm, hne⟩, if_pos hu]
    · obtain ⟨r, N, hr, hrun⟩ := ih (fun _ => hm)
      have hseen : (readEnv fl { env with start := a }).1.seen = none := if_neg hu
      refine ⟨r, N + 1, by rw [hseen]; exact hr, fun k n hk hn => ?_⟩
      obtain ⟨n, rfl⟩ : ∃ j, n = j + 1 := ⟨n - 1, by omega⟩
      have hgo := hrun n n (by omega) (by omega)
      rw [if_pos rfl] at hgo ⊢
      unfold getdentsFrom
      simp only [ha]
      rw [if_pos ⟨hm, hne⟩, if_neg hu]
      exact hgo
  | @leave fl m env es ha hw ih =>
    have hm := hm rfl
    obtain ⟨r, N, hr, hrun⟩ := ih (fun hc => by cases hc)
    refine ⟨r, N + 1, hr, fun k n hk hn => ?_⟩
    obtain ⟨n, rfl⟩ : ∃ j, n = j + 1 := ⟨n - 1, by omega⟩
    have hgo := hrun n n (by omega) (by omega)
    simp only [Bool.false_eq_true, if_false] at hgo
    rw [if_pos rfl]
    unfold getdentsFrom
    simp only [ha]
    rw [if_neg (fun hc => hc.2 rfl), if_pos hm]
    exact hgo
  | @enter fl m env p es hp hne hh hs hw ih =>
    obtain ⟨r, N, hr, hrun⟩ := ih (fun _ => hne)
    refine ⟨r, N + 1, hr, fun k n hk hn => ?_⟩
    obtain ⟨k, rfl⟩ : ∃ j, k = j + 1 := ⟨k - 1, by omega⟩
    have hgo := hrun k n (by omega) (by omega)
    rw [if_pos rfl] at hgo
    simp only [Bool.false_eq_true, if_false]
    unfold nextSector
    simp only [hp, if_neg hne, readSectorMetaData_head hh, Option.bind_eq_bind, Option.bind_some]
    rw [if_neg (not_or.mpr ⟨fun hc => (by cases hc), hs⟩), Option.bind_some, if_neg hne]
    exact hgo
  | @skip fl m env p es hp hne hh hs hw ih =>
    obtain ⟨r, N, hr, hrun⟩ := ih (fun hc => by cases hc)
    refine ⟨r, N + 1, hr, fun k n hk hn => ?_⟩
    obtain ⟨k, rfl⟩ : ∃ j, k = j + 1 := ⟨k - 1, by omega⟩
    have hgo := hrun k n (by omega) (by omega)
    simp only [Bool.false_eq_true, if_false] at hgo ⊢
    unfold nextSector
    simp only [hp, if_neg hne, readSectorMetaData_head hh, Option.bind_eq_bind, Option.bind_some]
    rw [if_pos (.inr hs)]
    exact hgo
  | @stop fl m env hp =>
    refine ⟨(⟨env, failedAddr, m⟩, fl), 1, .inl ⟨rfl, rfl⟩, fun k n hk hn => ?_⟩
    obtain ⟨k, rfl⟩ : ∃ j, k = j + 1 := ⟨k - 1, by omega⟩
    simp only [Bool.false_eq_true, if_false]
    unfold nextSector
    rw [hp]
    rfl

/-- A call goes to the next ENV that can be used. -/
theorem next_spec (h : Left fl d names) : ∃ r N, Next names r ∧ ∀ n, N ≤ n →
    envGetFsGetdents n fl d = some (decide (r.1.secAddr ≠ failedAddr), r) := by
  obtain ⟨es, rfl, ⟨hs, hw⟩ | ⟨hs, ha, hw⟩⟩ := h
  · obtain ⟨r, N, hr, hrun⟩ := getdentsFrom_next hw fun hc => by cases hc
    refine ⟨r, N + 1, hr, fun n hn => ?_⟩
    obtain ⟨n, rfl⟩ : ∃ j, n = j + 1 := ⟨n - 1, by omega⟩
    have hgo := hrun n n (by omega) (by omega)
    simp only [Bool.false_eq_true, if_false] at hgo
    unfold envGetFsGetdents getdentsFrom
    simp only [hs]
    rw [if_neg (fun hc => hc.1 rfl), if_neg (fun hc => hc rfl)]
    change Option.map _ ((nextSector n fl { d.sector with addr := failedAddr } d.env).bind _) = _
    rw [hgo]
    rfl
  · obtain ⟨r, N, hr, hrun⟩ := getdentsFrom_next hw fun _ => ha ▸ hs
    refine ⟨r, N, hr, fun n hn => ?_⟩
    have hgo := hrun n n hn hn
    rw [if_pos rfl, ha] at hgo
    have hd : ({ d with sector := { d.sector with addr := d.secAddr } } : Dir) =
        ⟨d.env, d.secAddr, d.sector⟩ := by rw [← ha]
    unfold envGetFsGetdents
    rw [hd, hgo]
    rfl

/-! ## One buffer -/

/-- The buffer is full, or the listing is at its end. -/
theorem fillDents_spec {k : Nat} (h : Left fl d names) : ∃ (l : List Dirent) (r : Dir × Memory)
    (N : Nat), (k ≤ names.length → l.map Dirent.name = (names.take k).map cstr ∧
      Left r.2 r.1 (names.drop k)) ∧ ∀ n, N ≤ n → ∀ acc,
      fillDents n k fl d acc = some (decide (k ≤ names.length), acc ++ l, r) := by
  induction k generalizing fl d names with
  | zero =>
    refine ⟨[], (d, fl), 0, fun _ => ⟨rfl, h⟩, fun n _ acc => ?_⟩
    rw [List.append_nil, decide_eq_true (Nat.zero_le _)]
    rfl
  | succ k ih =>
    obtain ⟨r, N, hr, hrun⟩ := next_spec h
    rcases hr with ⟨rfl, hs⟩ | ⟨name, rest, rfl, hs, hseen, hleft⟩
    · refine ⟨[], r, N, fun hk => absurd hk (Nat.not_succ_le_zero k), fun n hn acc => ?_⟩
      unfold fillDents
      rw [hrun n hn, hs]
      simp
    · obtain ⟨l, r', N', hl, hrun'⟩ := ih hleft
      refine ⟨dirent r.1.env :: l, r', max N N', fun hk => ?_, fun n hn acc => ?_⟩
      · obtain ⟨hmap, hleft'⟩ := hl (Nat.le_of_succ_le_succ hk)
        refine ⟨?_, hleft'⟩
        rw [List.map_cons, hmap, dirent_name hseen]
        rfl
      · unfold fillDents
        rw [hrun n (by omega), decide_eq_true hs]
        have hgo := hrun' n (by omega) (acc ++ [dirent r.1.env])
        simp only [Option.bind_eq_bind, Option.bind_some, if_true, hgo, List.append_assoc,
          List.cons_append, List.nil_append, List.length_cons, Nat.add_le_add_iff_right]

/-! ## The listing -/

theorem direntSize_pos : 0 < direntSize := by decide

/-- The entries come in full buffers. -/
theorem listing_spec (hc : direntSize ≤ count) (h : Left fl d names) : ∃ (out : List Dirent) (N : Nat),
    out.map Dirent.name =
      (names.take (names.length / (count / direntSize) * (count / direntSize))).map cstr ∧
    ∀ n k, N ≤ n → N ≤ k → listing n count k fl d = some out := by
  have hpos : 0 < count / direntSize := Nat.div_pos hc direntSize_pos
  have hbytes : count / direntSize * direntSize ≠ 0 :=
    Nat.ne_of_gt (Nat.mul_pos hpos direntSize_pos)
  generalize hk : count / direntSize = k at hpos hbytes
  generalize hlen : names.length = j
  induction j using Nat.strongRecOn generalizing fl d names with
  | ind j ih =>
    obtain ⟨l, r, N, hl, hrun⟩ := fillDents_spec (k := k) h
    have hcall : ∀ n, N ≤ n → dfsXipfsGetdents n fl d count =
        some (if k ≤ names.length then ((k * direntSize : Nat) : Int) else 0, l, r) := by
      intro n hn
      unfold dfsXipfsGetdents
      rw [hk, if_neg hbytes, hrun n hn, Option.map_some]
      simp only [decide_eq_true_eq, List.nil_append]
    by_cases hle : k ≤ names.length
    · obtain ⟨hmap, hleft⟩ := hl hle
      have hsub : (names.drop k).length = j - k := by rw [List.length_drop, hlen]
      obtain ⟨out, N', hout, hrest⟩ := ih (j - k) (by omega) hleft hsub
      have hllen : l.length = k := by
        have hlength := congrArg List.length hmap
        rw [List.length_map, List.length_map, List.length_take, Nat.min_eq_left hle] at hlength
        exact hlength
      refine ⟨l ++ out, max N N' + 1, ?_, fun n c hn hc => ?_⟩
      · -- the first buffer, and the others behind it
        have hdiv : j / k * k = k + (j - k) / k * k := by
          rw [Nat.div_eq_sub_div hpos (by omega), Nat.succ_mul, Nat.add_comm]
        rw [List.map_append, hmap, hout, hdiv, List.take_add, List.map_append]
      · obtain ⟨c, rfl⟩ : ∃ i, c = i + 1 := ⟨c - 1, by omega⟩
        unfold listing
        have hne : ((k * direntSize : Nat) : Int) ≠ 0 := by
          exact_mod_cast hbytes
        have hnum : (((k * direntSize : Nat) : Int) / (direntSize : Int)).toNat = k := by
          rw [Nat.cast_mul, Int.mul_ediv_cancel]
          · rfl
          · decide
        simp only [hcall n (by omega), if_pos hle, Option.bind_eq_bind, Option.bind_some, if_neg hne,
          hrest n c (by omega) (by omega), hnum]
        rw [List.take_of_length_le (Nat.le_of_eq hllen)]
    · refine ⟨[], N + 1, ?_, fun n c hn hc => ?_⟩
      · rw [Nat.div_eq_of_lt (by omega), Nat.zero_mul]
        rfl
      · obtain ⟨c, rfl⟩ : ∃ i, c = i + 1 := ⟨c - 1, by omega⟩
        unfold listing
        simp only [hcall n (by omega), if_neg hle, Option.bind_eq_bind, Option.bind_some, if_true]

/-- The root directory is listed completely if and only if the entries of a buffer divide the number
of the ENVs that can be used. -/
theorem listing_iff (h : Sectors fl envStartAddr) (hc : direntSize ≤ count) (d : Dir)
    (sector : SectorMeta) (env : EnvMeta) : ∃ (names : List (List UInt8)) (out : List Dirent) (N : Nat),
      (∀ n, N ≤ n → liveNames n fl sector env = some names) ∧
      (∀ n k, N ≤ n → N ≤ k → listing n count k fl (openRoot d) = some out) ∧
      (out.map Dirent.name = names.map cstr ↔ count / direntSize ∣ names.length) := by
  obtain ⟨es, hw⟩ := h.walk (fun _ _ => rfl) (behind_start (m := { sector with addr := failedAddr }) rfl)
    env
  -- the listing starts with other local variables
  have hw' : Walk false fl { (openRoot d).sector with addr := failedAddr } (openRoot d).env es :=
    hw.agrees (by rw [if_neg Bool.false_ne_true]; rfl)
  obtain ⟨N, hnames⟩ := hw.liveNames
  obtain ⟨out, N', hout, hrun⟩ := listing_spec hc ⟨es, rfl, .inl ⟨rfl, hw'⟩⟩
  refine ⟨es.filterMap id, out, max N N', fun n hn => hnames n (by omega),
    fun n k hn hk => hrun n k (by omega) (by omega), ?_⟩
  rw [hout]
  constructor
  · intro he
    have hlen := congrArg List.length he
    rw [List.length_map, List.length_map, List.length_take] at hlen
    have hle := Nat.div_mul_le_self (es.filterMap id).length (count / direntSize)
    exact ⟨(es.filterMap id).length / (count / direntSize), by rw [Nat.mul_comm]; omega⟩
  · intro hdvd
    rw [Nat.div_mul_cancel hdvd, List.take_length]

def someSector : SectorMeta := ⟨false, .unused, .unused, 0, 0, 0, 0, 0⟩

def someDir : Dir := ⟨.fresh, failedAddr, someSector⟩

/-- A buffer of one entry. -/
theorem listing_complete : ∃ (names : List (List UInt8)) (out : List Dirent) (N : Nat),
    (∀ n, N ≤ n → liveNames n oneFlash someSector .fresh = some names) ∧
    (∀ n k, N ≤ n → N ≤ k → listing n direntSize k oneFlash (openRoot someDir) = some out) ∧
    out.map Dirent.name = names.map cstr := by
  obtain ⟨names, out, N, h1, h2, h3⟩ := listing_iff oneFlash_area.start.toSectors
    (Nat.le_refl direntSize) someDir someSector .fresh
  refine ⟨names, out, N, h1, h2, h3.mpr ?_⟩
  rw [Nat.div_self direntSize_pos]
  exact Nat.one_dvd _

/-- There is one ENV, and a buffer of two entries: the listing is empty. -/
theorem listing_incomplete : ∃ N, ∀ n k, N ≤ n → N ≤ k →
    liveNames n oneFlash someSector .fresh = some [[0x61]] ∧
      listing n (2 * direntSize) k oneFlash (openRoot someDir) = some [] := by
  obtain ⟨es, hw⟩ := oneFlash_area.start.toSectors.walk (fun _ _ => rfl)
    (behind_start (m := { someSector with addr := failedAddr }) rfl)
    { EnvMeta.fresh with start := failedAddr }
  obtain ⟨N, hnames⟩ := hw.liveNames
  have harea := fun n hn => liveNames_area (n := n) oneFlash_area hn someSector
    { EnvMeta.fresh with start := failedAddr }
  have hes : es.filterMap id = [[0x61]] :=
    Option.some.inj ((hnames (N + envAreaSize) (by omega)).symm.trans
      (harea (N + envAreaSize) (by omega)))
  have hleft : Left oneFlash (openRoot someDir) (es.filterMap id) := ⟨es, rfl, .inl ⟨rfl, hw⟩⟩
  obtain ⟨out, N', hout, hrun⟩ :=
    listing_spec (show direntSize ≤ 2 * direntSize by omega) hleft
  rw [hes] at hout
  have hnil : out = [] := List.map_eq_nil_iff.mp (hout.trans (by decide))
  rw [hnil] at hrun
  exact ⟨N' + envAreaSize, fun n k hn hk => ⟨harea n (by omega), hrun n k (by omega) (by omega)⟩⟩

end Tudu.Xipfs
