import Mathlib.Data.List.Flatten
import Mathlib.Data.List.Nodup
import TuduOS.Lwt.Files

/-!
# What the end of a process releases

* `Released s s' i p`: the cleanup of the last thread of `p` closed the descriptors of `p`, let
  those in the other tables be, and freed the blocks of `p` once.
* `Quiet s p`: `p` has no open descriptor but that of the console, and the numbers that the loop of
  `lwt_ref_dec` closes name nothing in the table of the kernel.
* `distinct_of_run`: the blocks of the processes are distinct in every run.
* `lwtRefDec_releases_iff`: the one is the case just when the other is. The loop closes the numbers
  below `maxfd - 1` in the table of the idle thread, never a descriptor of `p`.
-/

namespace Tudu.Lwt

open Dfs

/-- The allocator keeps the blocks of the processes apart. -/
def Distinct (s : FileSys) : Prop := (s.procs.flatMap rtLwtFree).Nodup

/-- A table of the kernel or of another process -/
def OtherTable (s : FileSys) (i : Nat) (t : FdTable) : Prop :=
  t = s.kernel ∨ ∃ q ∈ s.procs.eraseIdx i, t = q.fdt ∨ t = q.dfsFdt

structure Released (s s' : FileSys) (i : Nat) (p : Proc) (console : Int) (c : List Addr) : Prop where
  closed : s'.closed = s.closed ++ c
  own : ∀ j d x, p.fdt.slot j = some d → (j : Int) + dfsFdOffset ≠ console → s.heap d = some x →
    0 < x.refCount → d ∈ c
  other : ∀ t, OtherTable s i t → ∀ j d, t.slot j = some d → d ∉ c ∧ s'.heap d = s.heap d
  kernel : s'.kernel = s.kernel
  procs : s'.procs = s.procs.eraseIdx i
  freed : ∀ a, s'.freed.count a = s.freed.count a + if a ∈ rtLwtFree p then 1 else 0

/-- A number that `close` finds nothing to close for, or that the file system does not close. -/
def Harmless (f : Files) (console fd result : Int) : Prop :=
  ∀ d, named f console fd = some d → ∃ x, f.heap d = some x ∧
    (x.magic ≠ dfsFdMagic ∨ (result < 0 ∧ x.refCount ≠ 0 ∧
      -2147483648 ≤ x.refCount ∧ x.refCount < 2147483647))

structure Quiet (s : FileSys) (p : Proc) (console : Int) (result : Nat → Int) : Prop where
  own : ∀ j d x, p.fdt.slot j = some d → (j : Int) + dfsFdOffset ≠ console → s.heap d = some x →
    x.refCount ≤ 0
  kernel : ∀ n, n + 1 < p.fdt.maxfd → Harmless ⟨s.kernel, s.heap⟩ console n (result n)

/-! ## One `close` -/

section

variable {f f' : Files} {console fd result : Int} {d : Addr} {a : Option Addr} {x : DfsFd} {i : Nat}
  {l : List Addr} {res : Nat → Int} {m : Nat}

/-- `fd_get` finds nothing for a structure that is not one of a descriptor. -/
theorem fdGet_none_iff (hd : named f console fd = some d) :
    fdGet f console fd = some (none, f') ↔
      f' = f ∧ ∃ x, f.heap d = some x ∧ x.magic ≠ dfsFdMagic := by
  unfold named at hd
  split at hd
  · cases hd
  · next hneg =>
    obtain ⟨hi, hfd⟩ := slot_some.mp hd
    unfold fdGet
    dsimp only
    rw [if_neg (by omega), hfd]
    dsimp only
    constructor
    · intro hg
      obtain ⟨x, hx, hg⟩ := Option.bind_eq_some_iff.mp hg
      split at hg
      · next hm =>
        cases hg
        exact ⟨rfl, x, hx, hm⟩
      · split at hg <;> cases hg
    · rintro ⟨rfl, x, hx, hm⟩
      rw [hx, Option.bind_some, if_pos hm]

theorem fdPut_int (hp : fdPut f d = some f') : ∃ x, f.heap d = some x ∧ -2147483648 < x.refCount := by
  unfold fdPut at hp
  obtain ⟨x, hx, hp⟩ := Option.bind_eq_some_iff.mp hp
  split at hp
  · cases hp
  · exact ⟨x, hx, by omega⟩

/-- A reference taken and given back. -/
theorem put_get (hx : f.heap d = some x) (h0 : x.refCount ≠ 0) (hlo : -2147483648 ≤ x.refCount) :
    fdPut { f with heap := Function.update f.heap d (some { x with refCount := x.refCount + 1 }) } d =
      some f := by
  unfold fdPut
  dsimp only
  rw [Function.update_self, Option.bind_some]
  dsimp only
  rw [if_neg (by omega), if_neg (by omega), Function.update_idem, Int.add_sub_cancel, ← hx,
    Function.update_eq_self]

/-- A harmless `close` changes nothing. -/
theorem close_of_harmless (h : Harmless f console fd result) :
    close f console fd result = some (none, f) := by
  cases hd : named f console fd with
  | none =>
    have hg : fdGet f console fd = some (none, f) := by
      refine fdGet_none ?_
      unfold named at hd
      split at hd
      · next hneg => exact .inl hneg
      · exact .inr hd
    unfold close
    rw [hg]
    rfl
  | some d =>
    obtain ⟨x, hx, hm | ⟨hres, h0, hlo, hhi⟩⟩ := h d hd
    · unfold close
      rw [(fdGet_none_iff hd).mpr ⟨rfl, x, hx, hm⟩]
      rfl
    · by_cases hm : x.magic = dfsFdMagic
      · have hslot := hd
        unfold named at hslot
        split at hslot
        · cases hslot
        · unfold close
          rw [fdGet_some (by omega) hslot hx hm hhi, Option.bind_some]
          dsimp only
          rw [if_pos hres, put_get hx h0 hlo]
          rfl
      · unfold close
        rw [(fdGet_none_iff hd).mpr ⟨rfl, x, hx, hm⟩]
        rfl

/-- A structure that is freed stays so. -/
theorem get_freed (hg : fdGet f console fd = some (a, f')) (hd : f.heap d = none) :
    f'.heap d = none := by
  rcases fdGet_cases hg with ⟨-, rfl⟩ | ⟨e, x, -, -, hx, -, -, rfl⟩
  · exact hd
  · have hne : d ≠ e := by
      rintro rfl
      rw [hd] at hx
      cases hx
    exact (Function.update_of_ne hne ..).trans hd

theorem put_freed {e : Addr} (hp : fdPut f e = some f') (hd : f.heap d = none) :
    f'.heap d = none := by
  obtain ⟨x, hx, hcases⟩ := fdPut_cases hp
  have hne : d ≠ e := by
    rintro rfl
    rw [hd] at hx
    cases hx
  rcases hcases with ⟨-, rfl⟩ | ⟨-, i, -, rfl⟩ | ⟨-, -, rfl⟩
  · exact (Function.update_of_ne hne ..).trans hd
  · exact (Function.update_of_ne hne ..).trans hd
  · exact (Function.update_of_ne hne ..).trans hd

theorem close_freed (hc : close f console fd result = some (a, f')) (hd : f.heap d = none) :
    f'.heap d = none := by
  rcases close_cases hc with ⟨-, hg⟩ | ⟨e, f1, hg, ⟨-, -, hp⟩ | ⟨-, -, x, f2, hx, hp1, hp2⟩⟩
  · exact get_freed hg hd
  · exact put_freed hp (get_freed hg hd)
  · have hd1 := get_freed hg hd
    have hne : d ≠ e := by
      rintro rfl
      rw [hd1] at hx
      cases hx
    exact put_freed hp2 (put_freed hp1 ((Function.update_of_ne hne ..).trans hd1))

theorem closeLoop_freed (hc : closeLoop console res m f = some (l, f')) (hd : f.heap d = none) :
    f'.heap d = none := by
  induction m generalizing f l with
  | zero =>
    cases hc
    exact hd
  | succ m ih =>
    cases m with
    | zero =>
      cases hc
      exact hd
    | succ m =>
      unfold closeLoop at hc
      obtain ⟨⟨b, f1⟩, hclose, hc⟩ := Option.bind_eq_some_iff.mp hc
      obtain ⟨⟨l', f2⟩, hrest, hc⟩ := Option.map_eq_some_iff.mp hc
      cases hc
      exact ih hrest (close_freed hclose hd)

/-! ## The loop -/

theorem closeLoop_of_harmless (h : ∀ n, n + 1 < m → Harmless f console (n : Nat) (res n)) :
    closeLoop console res m f = some ([], f) := by
  induction m with
  | zero => rfl
  | succ m ih =>
    cases m with
    | zero => rfl
    | succ m =>
      unfold closeLoop
      rw [close_of_harmless (h m (by omega)), Option.bind_some, ih fun n hn => h n (by omega)]
      rfl

/-- A `close` that closes no structure of the table and leaves all of them as they were. -/
theorem harmless_of_close (hc : close f console fd result = some (a, f'))
    (hclosed : ∀ j d, f.fdt.slot j = some d → a ≠ some d)
    (hkeep : ∀ j d, f.fdt.slot j = some d → f.heap d ≠ none → f'.heap d ≠ none) :
    Harmless f console fd result := by
  intro d hd
  obtain ⟨j, hj⟩ : ∃ j, f.fdt.slot j = some d := by
    unfold named at hd
    split at hd
    · cases hd
    · exact ⟨_, hd⟩
  rcases close_cases hc with ⟨-, hg⟩ | ⟨e, f1, hg, hcases⟩
  · obtain ⟨-, x, hx, hm⟩ := (fdGet_none_iff hd).mp hg
    exact ⟨x, hx, .inl hm⟩
  · rcases fdGet_cases hg with ⟨he, -⟩ | ⟨e', x, he, hnamed, hx, -, hlt, hf1⟩
    · cases he
    · cases he
      rw [hd] at hnamed
      cases hnamed
      refine ⟨x, hx, .inr ?_⟩
      rcases hcases with ⟨hneg, -, hp⟩ | ⟨-, ha, -⟩
      · have hx1 : f1.heap d = some { x with refCount := x.refCount + 1 } := by
          rw [hf1]
          exact Function.update_self ..
        obtain ⟨y, hy, hlo⟩ := fdPut_int hp
        rw [hx1] at hy
        cases hy
        dsimp only at hlo
        refine ⟨hneg, fun h0 => ?_, by omega, hlt⟩
        -- the count is 1 after `fd_get`: `fd_put` frees the structure
        have hlast : f'.heap d = none := by
          obtain ⟨z, hz, hput⟩ := fdPut_cases hp
          rw [hx1] at hz
          cases hz
          rcases hput with ⟨hne, -⟩ | ⟨-, i, -, rfl⟩ | ⟨-, hnone, -⟩
          · dsimp only at hne
            omega
          · exact Function.update_self ..
          · refine absurd ?_ (hnone j)
            rw [hf1]
            exact hj
        exact hkeep j d hj (by rw [hx]; exact fun hc => by cases hc) hlast
      · exact absurd ha (hclosed j d hj)

/-- A loop that closes no structure of the table and leaves all of them as they were. -/
theorem harmless_of_closeLoop (hc : closeLoop console res m f = some (l, f'))
    (hclosed : ∀ j d, f.fdt.slot j = some d → d ∉ l)
    (hkeep : ∀ j d, f.fdt.slot j = some d → f'.heap d = f.heap d) :
    l = [] ∧ ∀ n, n + 1 < m → Harmless f console (n : Nat) (res n) := by
  induction m generalizing l with
  | zero =>
    cases hc
    exact ⟨rfl, fun n hn => by omega⟩
  | succ m ih =>
    cases m with
    | zero =>
      cases hc
      exact ⟨rfl, fun n hn => by omega⟩
    | succ m =>
      unfold closeLoop at hc
      obtain ⟨⟨b, f1⟩, hclose, hc⟩ := Option.bind_eq_some_iff.mp hc
      obtain ⟨⟨l', f2⟩, hrest, hc⟩ := Option.map_eq_some_iff.mp hc
      cases hc
      have hm : Harmless f console m (res m) := by
        refine harmless_of_close hclose (fun j d hj hb => hclosed j d hj ?_) fun j d hj hne hnone => ?_
        · rw [hb]
          exact List.mem_append_left _ (List.mem_singleton.mpr rfl)
        · have hf := closeLoop_freed hrest hnone
          rw [hkeep j d hj] at hf
          exact hne hf
      rw [close_of_harmless hm] at hclose
      cases hclose
      obtain ⟨hl, hrest'⟩ := ih hrest fun j d hj => hclosed j d hj
      refine ⟨hl, fun n hn => ?_⟩
      by_cases hnm : n = m
      · rw [hnm]
        exact hm
      · exact hrest' n (by omega)

end

/-! ## The blocks -/

section

variable {s s' : FileSys} {o : Option Nat} {f : Files} {i fdMax : Nat} {act : FileAct}

/-- A process that changes in its references and descriptors. -/
theorem flatMap_set {p q : Proc} {ps : List Proc} (hp : ps[i]? = some p)
    (hq : rtLwtFree q = rtLwtFree p) : (ps.set i q).flatMap rtLwtFree = ps.flatMap rtLwtFree := by
  induction ps generalizing i with
  | nil => cases hp
  | cons r ps ih =>
    cases i with
    | zero =>
      have hr : r = p := Option.some.inj hp
      rw [List.set_cons_zero, List.flatMap_cons, List.flatMap_cons, hq, hr]
    | succ i => rw [List.set_cons_succ, List.flatMap_cons, List.flatMap_cons, ih (i := i) hp]

theorem flatMap_modify {g : Proc → Proc} {ps : List Proc} (hg : ∀ p, rtLwtFree (g p) = rtLwtFree p) :
    (ps.modify i g).flatMap rtLwtFree = ps.flatMap rtLwtFree := by
  induction ps generalizing i with
  | nil => cases i <;> rfl
  | cons r ps ih =>
    cases i with
    | zero => rw [List.modify_zero_cons, List.flatMap_cons, List.flatMap_cons, hg]
    | succ i => rw [List.modify_succ_cons, List.flatMap_cons, List.flatMap_cons, ih]

theorem blocks_setFiles : (s.setFiles f o).procs.flatMap rtLwtFree = s.procs.flatMap rtLwtFree := by
  cases o with
  | none => rfl
  | some i => exact flatMap_modify fun p => rfl

theorem Distinct.step (h : Distinct s) (hs : fileStep fdMax s act = some s') : Distinct s' := by
  unfold Distinct at h ⊢
  cases act with
  | new o realloc calloc =>
    have hs' : (if calloc.all fun d => (s.heap d).isNone then
      (s.files o).bind fun f => (fdNew fdMax f realloc calloc).map fun r => s.setFiles r.2 o
      else none) = some s' := hs
    split at hs'
    · obtain ⟨f, -, hs'⟩ := Option.bind_eq_some_iff.mp hs'
      obtain ⟨r, -, rfl⟩ := Option.map_eq_some_iff.mp hs'
      rwa [blocks_setFiles]
    · cases hs'
  | get _ _ _ | put _ _ =>
    obtain ⟨f, -, hs'⟩ := Option.bind_eq_some_iff.mp hs
    obtain ⟨r, -, rfl⟩ := Option.map_eq_some_iff.mp hs'
    rwa [blocks_setFiles]
  | execve o console b fds old =>
    have hs1 : (if (b.addrs fds ++ s.procs.flatMap rtLwtFree).Nodup
      then execveFdt s o console b fds old else none) = some s' := hs
    split at hs1
    · next hnodup =>
      obtain ⟨f, -, hs'⟩ := Option.bind_eq_some_iff.mp hs1
      obtain ⟨r, -, hs'⟩ := Option.bind_eq_some_iff.mp hs'
      obtain ⟨d, -, hs'⟩ := Option.bind_eq_some_iff.mp hs'
      obtain ⟨f2, -, hs'⟩ := Option.bind_eq_some_iff.mp hs'
      obtain ⟨a, ha, hs'⟩ := Option.bind_eq_some_iff.mp hs'
      cases hs'
      rw [List.flatMap_append, blocks_setFiles, List.nodup_append_comm]
      rw [ha] at hnodup
      rw [List.flatMap_cons, List.flatMap_nil, List.append_nil]
      exact hnodup
    · cases hs1
  | startup i =>
    obtain ⟨p, hp, rfl⟩ := Option.map_eq_some_iff.mp hs
    show ((s.procs.set i { p with ref := p.ref + 1 }).flatMap rtLwtFree).Nodup
    rwa [flatMap_set (q := { p with ref := p.ref + 1 }) hp rfl]
  | exit i console result =>
    obtain ⟨p, hp, hs'⟩ := Option.bind_eq_some_iff.mp hs
    split at hs'
    · split at hs'
      · obtain ⟨r, -, rfl⟩ := Option.map_eq_some_iff.mp hs'
        exact h.sublist ((List.eraseIdx_sublist ..).flatMap _)
      · cases hs'
        show ((s.procs.set i { p with ref := p.ref - 1 }).flatMap rtLwtFree).Nodup
        rwa [flatMap_set (q := { p with ref := p.ref - 1 }) hp rfl]
    · cases hs'
      exact h

end

theorem distinct_of_run {fdMax : Nat} {as : List FileAct} {s : FileSys}
    (hx : Lts.exec (fileStep fdMax) .empty as = some s) : Distinct s :=
  Lts.exec_inv (fun _ _ _ h hs => h.step hs) hx List.nodup_nil

/-- The cleanup of the last thread of a process releases what it should just when it closes nothing
and there is nothing to close. -/
theorem lwtRefDec_releases_iff {s : FileSys} {i : Nat} {p : Proc} {console : Int}
    {result : Nat → Int} (hp : s.procs[i]? = some p) (hr : p.ref = 1) (hd : Distinct s) :
    (∃ s' c, s.lwtRefDec i console result = some s' ∧ Released s s' i p console c) ↔
      Quiet s p console result := by
  have hstep : s.lwtRefDec i console result =
      (closeLoop console result p.fdt.maxfd ⟨s.kernel, s.heap⟩).map fun r =>
        ⟨r.2.heap, r.2.fdt, s.procs.eraseIdx i, s.closed ++ r.1, s.freed ++ rtLwtFree p⟩ := by
    unfold FileSys.lwtRefDec
    rw [hp, Option.bind_some, if_pos (by omega), if_pos (by omega)]
  rw [hstep]
  constructor
  · rintro ⟨s', c, hs, h⟩
    obtain ⟨⟨l, f'⟩, hloop, rfl⟩ := Option.map_eq_some_iff.mp hs
    have hl : l = c := List.append_cancel_left h.closed
    have hother := h.other s.kernel (.inl rfl)
    obtain ⟨hnil, hharm⟩ := harmless_of_closeLoop hloop
      (fun j d hj => hl ▸ (hother j d hj).1) fun j d hj => (hother j d hj).2
    refine ⟨fun j d x hj hne hx => ?_, hharm⟩
    by_contra hpos
    have hmem := h.own j d x hj hne hx (by omega)
    rw [← hl, hnil] at hmem
    cases hmem
  · intro h
    rw [closeLoop_of_harmless h.kernel]
    refine ⟨_, [], rfl, {
      closed := rfl
      own := fun j d x hj hne hx hpos => ?_
      other := fun t _ j d _ => ⟨List.not_mem_nil, rfl⟩
      kernel := rfl
      procs := rfl
      freed := fun a => ?_ }⟩
    · have := h.own j d x hj hne hx
      omega
    · have hnodup : (rtLwtFree p).Nodup :=
        (List.nodup_flatMap.mp hd).1 p (List.mem_of_getElem? hp)
      show (s.freed ++ rtLwtFree p).count a = _
      rw [List.count_append, hnodup.count]

/-- A process with the descriptor of the console only. -/
def consoleOnly : Proc := ⟨1, 1, some 2, some 3, some 4, some 5, ⟨1, fun _ => some 100⟩, ⟨0, fun _ => none⟩⟩

/-- The console is descriptor 3 of the kernel and of the process. -/
def consoleSys (p : Proc) : FileSys :=
  ⟨fun d => if d = 100 ∨ d = 101 then some ⟨dfsFdMagic, 1, none⟩ else none, ⟨1, fun _ => some 100⟩,
    [p], [], []⟩

theorem lwtRefDec_releases_console : ∃ s' c,
    (consoleSys consoleOnly).lwtRefDec 0 3 (fun _ => 0) = some s' ∧
      Released (consoleSys consoleOnly) s' 0 consoleOnly 3 c :=
  (lwtRefDec_releases_iff rfl rfl (by unfold Distinct; decide)).mpr {
    own := fun j d x hj hne _ => by
      obtain ⟨hlt, -⟩ := slot_some.mp hj
      have hlt' : j < 1 := hlt
      have h3 : dfsFdOffset = 3 := rfl
      omega
    kernel := fun n hn => by
      have hn' : n + 1 < 1 := hn
      omega }

/-- The process has opened a file: its end closes the console of the kernel, and not the file. -/
theorem not_released_file : ¬ ∃ s' c,
    (consoleSys { consoleOnly with fdt := ⟨2, fun i => some (100 + i)⟩ }).lwtRefDec 0 3 (fun _ => 0) =
      some s' ∧
    Released (consoleSys { consoleOnly with fdt := ⟨2, fun i => some (100 + i)⟩ }) s' 0
      { consoleOnly with fdt := ⟨2, fun i => some (100 + i)⟩ } 3 c := by
  rintro ⟨s', c, hs, h⟩
  have hc : ((consoleSys { consoleOnly with fdt := ⟨2, fun i => some (100 + i)⟩ }).lwtRefDec 0 3
      (fun _ => 0)).map FileSys.closed = some [100] := by decide
  rw [hs, Option.map_some, h.closed] at hc
  have hmem : 101 ∈ c := h.own 1 101 ⟨dfsFdMagic, 1, none⟩ (by decide) (by decide) (by decide) (by decide)
  have hc' : c = [100] := Option.some.inj hc
  rw [hc'] at hmem
  exact absurd hmem (by decide)

end Tudu.Lwt
