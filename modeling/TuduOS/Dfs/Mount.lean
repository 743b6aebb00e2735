import TuduOS.Dfs.Path
import TuduOS.Lib.Lts

/-!
# The mount table (`dfs_fs.c`)

* `dfsMount`, `dfsUnmount`, `dfsFilesystemLookup`: the functions, on `filesystem_table`. What the
  devices and the file systems answer is in the call.
* `TableOk t`: no path is mounted twice, and every path is normal.
* `lookup_spec`: then the lookup of a normal path finds the file system that it is on.
* `MountOk wd t call`: the path does not lead above the root, and is spelled as it is stored, or is
  not mounted.
* `mountTable_ok`: the table is right in all runs along `MountOk`, and no call that fails changes
  it.
-/

namespace Tudu.Dfs

open Path Lts

inductive Errno where
  | enodev | enosys | enotdir | einval | enospc
  deriving DecidableEq

/-- An entry of `filesystem_table` in use -/
structure Mount where
  path : List Char
  ops : Nat
  devId : Option Nat
  deriving DecidableEq

abbrev MountTable := List (Option Mount)

/-- The `for` of `dfs_filesystem_lookup`, from the entry `i` on -/
def lookupFrom (path : List Char) : MountTable → Nat → Option Nat → Nat → Option Nat
  | [], _, fs, _ => fs
  | none :: t, i, fs, prefixlen => lookupFrom path t (i + 1) fs prefixlen
  | some iter :: t, i, fs, prefixlen =>
    let fspath := iter.path.length
    if fspath < prefixlen ∨ iter.path ≠ path.take fspath then
      lookupFrom path t (i + 1) fs prefixlen
    else if fspath > 1 ∧ path.length > fspath ∧ path[fspath]? ≠ some '/' then
      lookupFrom path t (i + 1) fs prefixlen
    else lookupFrom path t (i + 1) (some i) fspath

/-- `dfs_filesystem_lookup` -/
def dfsFilesystemLookup (t : MountTable) (path : List Char) : Option Nat :=
  lookupFrom path t 0 none 0

/-- The `for` of `dfs_mount`: `none` if the path is mounted, else the first empty entry. -/
def mountScan (path : List Char) : MountTable → Nat → Option Nat → Option (Option Nat)
  | [], _, fs => some fs
  | none :: t, i, fs => mountScan path t (i + 1) (if fs = none then some i else fs)
  | some iter :: t, i, fs => if iter.path = path then none else mountScan path t (i + 1) fs

structure MountCall where
  path : List Char
  /-- `dev_id`, or no device of the name -/
  dev : Option (Option Nat)
  /-- The file system of the type, if it can mount -/
  ops : Option (Option Nat)
  /-- The path is allocated. -/
  alloc : Bool
  /-- `dfs_file_open` finds the directory. -/
  opened : Bool
  /-- `rt_device_open` -/
  devOpen : Bool
  /-- `mount` of the file system -/
  mounted : Bool

/-- `dfs_mount`: what it returns, the error that it sets, and the table -/
def dfsMount (wd : List Char) (t : MountTable) (c : MountCall) : Int × Option Errno × MountTable :=
  match c.dev, c.ops with
  | none, _ => (-1, some .enodev, t)
  | some _, none => (-1, some .enodev, t)
  | some _, some none => (-1, some .enosys, t)
  | some dev, some (some ops) =>
    match dfsNormalizePath wd c.path c.alloc with
    | none => (-1, some .enotdir, t)
    | some fullpath =>
      if fullpath ≠ ['/'] ∧ fullpath ≠ ['/', 'd', 'e', 'v'] ∧ c.opened = false then
        (-1, some .enotdir, t)
      else
        match mountScan c.path t 0 none with
        | none => (-1, some .einval, t)
        | some none => (-1, some .enospc, t)
        | some (some fs) =>
          let t := t.set fs (some ⟨fullpath, ops, dev⟩)
          if dev ≠ none ∧ c.devOpen = false then (-1, none, t.set fs none)
          else if c.mounted = false then (-1, none, t.set fs none)
          else (0, none, t)

/-- `dfs_unmount`; `unmounted`: the file system has `unmount`, and it succeeds. -/
def dfsUnmount (wd : List Char) (t : MountTable) (specialfile : List Char) (alloc unmounted : Bool) :
    Int × Option Errno × MountTable :=
  match dfsNormalizePath wd specialfile alloc with
  | none => (-1, some .enotdir, t)
  | some fullpath =>
    match t.findIdx? fun iter => iter.map Mount.path = some fullpath with
    | none => (-1, none, t)
    | some fs => if unmounted then (0, none, t.set fs none) else (-1, none, t)

inductive MountAct where
  | mount (c : MountCall)
  | unmount (path : List Char) (alloc unmounted : Bool)

/-- What a call returns, and the table -/
def mountCall (wd : List Char) (t : MountTable) : MountAct → Int × Option Errno × MountTable
  | .mount c => dfsMount wd t c
  | .unmount path alloc unmounted => dfsUnmount wd t path alloc unmounted

def mountStep (wd : List Char) (t : MountTable) (a : MountAct) : Option MountTable :=
  some (mountCall wd t a).2.2

/-! ## What holds along a run -/

/-- The entry `i` is in use. -/
def Entry (t : MountTable) (i : Nat) (e : Mount) : Prop := t[i]? = some (some e)

/-- The entry is mounted on the directory `l`. -/
def On (e : Mount) (l : List (List Char)) : Prop := Dir l ∧ e.path = render '/' l

structure TableOk (t : MountTable) : Prop where
  normal : ∀ i e, Entry t i e → ∃ l, On e l
  unique : ∀ i j e e', Entry t i e → Entry t j e' → e.path = e'.path → i = j

/-- The file system that the directory `cs` is on: the nearest one above it -/
structure OnFs (t : MountTable) (cs : List (List Char)) (i : Nat) (e : Mount)
    (l : List (List Char)) : Prop where
  entry : Entry t i e
  on : On e l
  below : l <+: cs
  longest : ∀ j e' l', Entry t j e' → On e' l' → l' <+: cs → l' <+: l

def MountOk (wd : List Char) (t : MountTable) : MountAct → Prop
  | .mount c => ∃ rest dir, fullPath wd c.path = '/' :: rest ∧
      walk here up [] (split '/' rest) = some dir ∧
      (c.path = render '/' dir.reverse ∨
        ∀ i e, Entry t i e → e.path ≠ render '/' dir.reverse)
  | .unmount _ _ _ => True

/-! ## The lookup -/

section

variable {t : MountTable} {l cs : List (List Char)} {i : Nat} {path : List Char}

/-- The tests of the lookup -/
def Matches (path : List Char) (e : Mount) : Prop :=
  e.path = path.take e.path.length ∧
    ¬ (e.path.length > 1 ∧ path.length > e.path.length ∧ path[e.path.length]? ≠ some '/')

theorem behind_iff {x y : List Char} (hx : 1 < x.length) :
    ¬ (x.length > 1 ∧ (x ++ y).length > x.length ∧ (x ++ y)[x.length]? ≠ some '/') ↔
      Behind '/' y := by
  rw [List.getElem?_append_right (Nat.le_refl _), Nat.sub_self, List.length_append]
  cases y with
  | nil => exact ⟨fun _ => .inl rfl, fun _ hc => by simp at hc⟩
  | cons a y =>
    constructor
    · intro h
      by_cases ha : a = '/'
      · exact .inr ⟨y, by rw [ha]⟩
      · refine absurd ⟨hx, by simp, ?_⟩ h
        intro hc
        exact ha (Option.some.inj hc)
    · rintro (h | ⟨z, hz⟩) ⟨-, -, hne⟩
      · cases h
      · obtain ⟨rfl, rfl⟩ := List.cons.inj hz
        exact hne rfl

theorem matches_iff {e : Mount} (hl : Dir l) (he : e.path = render '/' l) (hcs : Dir cs) :
    Matches (render '/' cs) e ↔ l <+: cs := by
  unfold Matches
  rw [he]
  have hroot : ∃ y, render '/' cs = '/' :: y := by
    cases cs with
    | nil => exact ⟨[], rfl⟩
    | cons c cs => exact ⟨_, rfl⟩
  obtain ⟨y, hy⟩ := hroot
  cases l with
  | nil =>
    rw [render_nil, hy]
    refine ⟨fun _ => List.nil_prefix, fun _ => ⟨rfl, fun hc => ?_⟩⟩
    exact absurd hc.1 (by decide)
  | cons c l =>
    have hone := one_lt_body hl.1
    rw [render_of_ne (List.cons_ne_nil c l)]
    cases cs with
    | nil =>
      rw [render_nil]
      constructor
      · rintro ⟨htake, -⟩
        have hlen := congrArg List.length htake
        rw [List.length_take, List.length_singleton] at hlen
        omega
      · intro h
        exact absurd (List.prefix_nil.mp h) (List.cons_ne_nil c l)
    | cons d cs =>
      rw [render_of_ne (List.cons_ne_nil d cs), ← body_prefix_iff hl.1 hcs.1]
      constructor
      · rintro ⟨htake, hnot⟩
        obtain ⟨z, hz⟩ := List.prefix_iff_eq_take.mpr htake
        refine ⟨z, hz.symm, ?_⟩
        rw [← hz] at hnot
        exact (behind_iff hone).mp hnot
      · rintro ⟨z, hz, hb⟩
        rw [hz]
        exact ⟨(List.take_left ..).symm, (behind_iff hone).mpr hb⟩

/-- The entry that is found is the last one of the longest that match. -/
theorem lookupFrom_spec (t : MountTable) (path : List Char) (i : Nat) (k : Option Nat) (n : Nat) :
    (lookupFrom path t i k n = k ∧
      ∀ j e, Entry t j e → Matches path e → e.path.length < n) ∨
    ∃ j e, Entry t j e ∧ lookupFrom path t i k n = some (i + j) ∧ Matches path e ∧
      n ≤ e.path.length ∧
      ∀ j' e', Entry t j' e' → Matches path e' → e'.path.length ≤ e.path.length := by
  induction t generalizing i k n with
  | nil => exact .inl ⟨rfl, fun j e h => by cases h⟩
  | cons o t ih =>
    -- an entry that is passed over
    have hpass : (∀ e, o = some e → Matches path e → e.path.length < n) →
        lookupFrom path (o :: t) i k n = lookupFrom path t (i + 1) k n →
        (lookupFrom path (o :: t) i k n = k ∧
          ∀ j e, Entry (o :: t) j e → Matches path e → e.path.length < n) ∨
        ∃ j e, Entry (o :: t) j e ∧ lookupFrom path (o :: t) i k n = some (i + j) ∧
          Matches path e ∧ n ≤ e.path.length ∧
          ∀ j' e', Entry (o :: t) j' e' → Matches path e' →
            e'.path.length ≤ e.path.length := by
      intro ho heq
      rw [heq]
      rcases ih (i := i + 1) (k := k) (n := n) with ⟨hk, hall⟩ | ⟨j, e, hj, hr, hm, hn, hall⟩
      · refine .inl ⟨hk, fun j e hj hm => ?_⟩
        cases j with
        | zero => exact ho e (Option.some.inj hj) hm
        | succ j => exact hall j e hj hm
      · refine .inr ⟨j + 1, e, hj, by rw [hr]; congr 1; omega, hm, hn, fun j' e' hj' hm' => ?_⟩
        cases j' with
        | zero => exact Nat.le_trans (Nat.le_of_lt (ho e' (Option.some.inj hj') hm')) hn
        | succ j' => exact hall j' e' hj' hm'
    cases o with
    | none => exact hpass (fun e he => by cases he) rfl
    | some iter =>
      by_cases h1 : iter.path.length < n ∨ iter.path ≠ path.take iter.path.length
      · refine hpass (fun e he hm => ?_) (if_pos h1)
        cases he
        exact h1.resolve_right fun hne => hne hm.1
      · by_cases h2 : iter.path.length > 1 ∧ path.length > iter.path.length ∧
            path[iter.path.length]? ≠ some '/'
        · refine hpass (fun e he hm => ?_) ((if_neg h1).trans (if_pos h2))
          cases he
          exact absurd h2 hm.2
        · have heq : lookupFrom path (some iter :: t) i k n =
              lookupFrom path t (i + 1) (some i) iter.path.length := (if_neg h1).trans (if_neg h2)
          obtain ⟨hlen, htake⟩ := not_or.mp h1
          have hm : Matches path iter := ⟨not_not.mp htake, h2⟩
          rw [heq]
          right
          rcases ih (i := i + 1) (k := some i) (n := iter.path.length) with
            ⟨hk, hall⟩ | ⟨j, e, hj, hr, hme, hn, hall⟩
          · refine ⟨0, iter, rfl, hk, hm, by omega, fun j' e' hj' hm' => ?_⟩
            cases j' with
            | zero =>
              have he' : iter = e' := Option.some.inj (Option.some.inj hj')
              rw [he']
            | succ j' => exact Nat.le_of_lt (hall j' e' hj' hm')
          · refine ⟨j + 1, e, hj, by rw [hr]; congr 1; omega, hme, by omega, fun j' e' hj' hm' => ?_⟩
            cases j' with
            | zero =>
              have he' : iter = e' := Option.some.inj (Option.some.inj hj')
              rw [← he']
              exact hn
            | succ j' => exact hall j' e' hj' hm'

/-- The lookup of a normal path finds the file system that it is on, if there is one. -/
theorem lookup_spec (h : TableOk t) (hcs : Dir cs) :
    (∀ i, dfsFilesystemLookup t (render '/' cs) = some i → ∃ e l, OnFs t cs i e l) ∧
    (dfsFilesystemLookup t (render '/' cs) = none → ∀ i e l, Entry t i e → On e l → ¬ l <+: cs) := by
  unfold dfsFilesystemLookup
  rcases lookupFrom_spec t (render '/' cs) 0 none 0 with
    ⟨hnone, hall⟩ | ⟨j, e, hj, hr, hm, -, hall⟩
  · refine ⟨fun i hi => ?_, fun _ i e l he hl hle => ?_⟩
    · rw [hnone] at hi
      cases hi
    · exact absurd (hall i e he ((matches_iff hl.1 hl.2 hcs).mpr hle)) (Nat.not_lt_zero _)
  · refine ⟨fun i hi => ?_, fun hi => ?_⟩
    · rw [hr, Nat.zero_add] at hi
      cases hi
      obtain ⟨l, hl⟩ := h.normal j e hj
      have hle := (matches_iff hl.1 hl.2 hcs).mp hm
      refine ⟨e, l, hj, hl, hle, fun j' e' l' hj' hl' hle' => ?_⟩
      have hlen := hall j' e' hj' ((matches_iff hl'.1 hl'.2 hcs).mpr hle')
      -- both are above the path: the longer one is below the other
      rcases List.prefix_or_prefix_of_prefix hle' hle with hp | ⟨r, hp⟩
      · exact hp
      · cases r with
        | nil =>
          rw [List.append_nil] at hp
          rw [hp]
        | cons c r =>
          exfalso
          rw [hl.2, hl'.2, ← hp] at hlen
          have hne : l ++ c :: r ≠ [] := List.append_ne_nil_of_right_ne_nil _ (List.cons_ne_nil c r)
          rw [render_of_ne hne, body_append, List.length_append] at hlen
          cases l with
          | nil =>
            have hnames : Names '/' (c :: r) := by
              have hd := hl'.1.1
              rwa [← hp] at hd
            have := one_lt_body hnames
            rw [render_nil, List.length_singleton] at hlen
            omega
          | cons d l =>
            rw [render_of_ne (List.cons_ne_nil d l), body_cons (c := c), List.length_cons] at hlen
            omega
    · rw [hr] at hi
      cases hi

/-! ## The steps -/

/-- The scan finds an empty entry, if the path is not mounted under this spelling. -/
theorem mountScan_cases {r k : Option Nat} (h : mountScan path t i k = some r)
    (hk : ∀ n, k = some n → n < i) :
    (∀ j e, Entry t j e → e.path ≠ path) ∧
      ∀ n, r = some n → k = some n ∨ ∃ j, n = i + j ∧ t[j]? = some none := by
  induction t generalizing i k with
  | nil =>
    cases h
    exact ⟨fun j e hj => (by cases hj), fun n hn => .inl hn⟩
  | cons o t ih =>
    cases o with
    | none =>
      have h' : mountScan path t (i + 1) (if k = none then some i else k) = some r := h
      obtain ⟨hne, hr⟩ := ih h' fun n hn => by
        split at hn
        · cases hn
          omega
        · have := hk n hn
          omega
      refine ⟨fun j e hj => ?_, fun n hn => ?_⟩
      · cases j with
        | zero => cases hj
        | succ j => exact hne j e hj
      · rcases hr n hn with hkn | ⟨j, hj, ht⟩
        · split at hkn
          · cases hkn
            exact .inr ⟨0, rfl, rfl⟩
          · exact .inl hkn
        · exact .inr ⟨j + 1, by omega, ht⟩
    | some iter =>
      have h' : (if iter.path = path then none else mountScan path t (i + 1) k) = some r := h
      split at h'
      · cases h'
      · next hp =>
        obtain ⟨hne, hr⟩ := ih h' fun n hn => by
          have := hk n hn
          omega
        refine ⟨fun j e hj => ?_, fun n hn => ?_⟩
        · cases j with
          | zero =>
            have he : iter = e := Option.some.inj (Option.some.inj hj)
            rw [← he]
            exact hp
          | succ j => exact hne j e hj
        · rcases hr n hn with hkn | ⟨j, hj, ht⟩
          · exact .inl hkn
          · exact .inr ⟨j + 1, by omega, ht⟩

theorem set_set_none {k : Nat} {e : Mount} (h : t[k]? = some none) :
    (t.set k (some e)).set k none = t := by
  rw [List.set_set]
  apply List.ext_getElem?
  intro i
  rw [List.getElem?_set]
  split
  · next hk =>
    obtain ⟨hlt, -⟩ := List.getElem?_eq_some_iff.mp h
    rw [if_pos hlt, ← hk, h]
  · rfl

/-- What `dfs_mount` does: the table as it was, or a file system in an empty entry. -/
theorem dfsMount_cases (wd : List Char) (t : MountTable) (c : MountCall) :
    ((dfsMount wd t c).1 = -1 ∧ (dfsMount wd t c).2.2 = t) ∨
    ∃ fullpath ops dev k, dfsNormalizePath wd c.path c.alloc = some fullpath ∧
      (dfsMount wd t c).1 = 0 ∧ t[k]? = some none ∧ (∀ j e, Entry t j e → e.path ≠ c.path) ∧
      (dfsMount wd t c).2.2 = t.set k (some ⟨fullpath, ops, dev⟩) := by
  unfold dfsMount
  split
  · exact .inl ⟨rfl, rfl⟩
  · exact .inl ⟨rfl, rfl⟩
  · exact .inl ⟨rfl, rfl⟩
  · split
    · exact .inl ⟨rfl, rfl⟩
    · next fullpath hpath =>
      split
      · exact .inl ⟨rfl, rfl⟩
      · split
        · exact .inl ⟨rfl, rfl⟩
        · exact .inl ⟨rfl, rfl⟩
        · next k hscan =>
          obtain ⟨hne, hk⟩ := mountScan_cases hscan fun n hn => by cases hn
          have hempty : t[k]? = some none := by
            rcases hk k rfl with h | ⟨j, hj, ht⟩
            · cases h
            · rw [hj, Nat.zero_add]
              exact ht
          dsimp only
          split
          · exact .inl ⟨rfl, set_set_none hempty⟩
          · split
            · exact .inl ⟨rfl, set_set_none hempty⟩
            · exact .inr ⟨fullpath, _, _, k, hpath, rfl, hempty, hne, rfl⟩

/-- What `dfs_unmount` does: the table as it was, or an entry empty. -/
theorem dfsUnmount_cases (wd : List Char) (t : MountTable) (path : List Char) (alloc unmounted : Bool) :
    ((dfsUnmount wd t path alloc unmounted).1 = -1 ∧ (dfsUnmount wd t path alloc unmounted).2.2 = t) ∨
    ∃ k, (dfsUnmount wd t path alloc unmounted).1 = 0 ∧
      (dfsUnmount wd t path alloc unmounted).2.2 = t.set k none := by
  unfold dfsUnmount
  split
  · exact .inl ⟨rfl, rfl⟩
  · split
    · exact .inl ⟨rfl, rfl⟩
    · split
      · exact .inr ⟨_, rfl, rfl⟩
      · exact .inl ⟨rfl, rfl⟩

/-- A call that fails leaves the table as it was. -/
theorem mountCall_fails {wd : List Char} {a : MountAct} (h : (mountCall wd t a).1 ≠ 0) :
    (mountCall wd t a).2.2 = t := by
  cases a with
  | mount c =>
    rcases dfsMount_cases wd t c with ⟨-, ht⟩ | ⟨-, -, -, -, -, h0, -⟩
    · exact ht
    · exact absurd h0 h
  | unmount path alloc unmounted =>
    rcases dfsUnmount_cases wd t path alloc unmounted with ⟨-, ht⟩ | ⟨-, h0, -⟩
    · exact ht
    · exact absurd h0 h

theorem entry_set {k : Nat} {o : Option Mount} {e : Mount} (h : Entry (t.set k o) i e) :
    (i = k ∧ o = some e) ∨ (i ≠ k ∧ Entry t i e) := by
  unfold Entry at h
  rw [List.getElem?_set] at h
  split at h
  · next hk =>
    split at h
    · exact .inl ⟨hk.symm, Option.some.inj h⟩
    · cases h
  · next hk => exact .inr ⟨fun hc => hk hc.symm, h⟩

theorem TableOk.step {wd : List Char} {t' : MountTable} {a : MountAct} (h : TableOk t)
    (hok : MountOk wd t a) (hs : mountStep wd t a = some t') : TableOk t' := by
  cases a with
  | mount c =>
    cases hs
    rcases dfsMount_cases wd t c with ⟨-, ht⟩ | ⟨fullpath, ops, dev, k, hpath, -, hk, hne, ht⟩
    · show TableOk (dfsMount wd t c).2.2
      rwa [ht]
    · obtain ⟨rest, dir, hfull, hwalk, hspell⟩ := hok
      obtain ⟨hnorm, hdir⟩ := dfsNormalizePath_eq hfull hwalk
      have halloc : c.alloc = true := by
        by_contra hc
        rw [Bool.eq_false_iff.mpr hc] at hpath
        cases hpath
      rw [halloc, hnorm] at hpath
      cases hpath
      -- no entry has the normal path
      have hnew : ∀ i e, Entry t i e → e.path ≠ render '/' dir.reverse := by
        rcases hspell with hsp | hno
        · rwa [← hsp]
        · exact hno
      show TableOk (dfsMount wd t c).2.2
      rw [ht]
      refine ⟨fun i e he => ?_, fun i j e e' he he' hp => ?_⟩
      · rcases entry_set he with ⟨-, hoe⟩ | ⟨-, he⟩
        · cases hoe
          exact ⟨dir.reverse, hdir, rfl⟩
        · exact h.normal i e he
      · rcases entry_set he with ⟨hi, hoe⟩ | ⟨hi, he⟩
        · rcases entry_set he' with ⟨hj, -⟩ | ⟨-, he'⟩
          · rw [hi, hj]
          · cases hoe
            exact absurd hp.symm (hnew j e' he')
        · rcases entry_set he' with ⟨-, hoe⟩ | ⟨-, he'⟩
          · cases hoe
            exact absurd hp (hnew i e he)
          · exact h.unique i j e e' he he' hp
  | unmount path alloc unmounted =>
    cases hs
    rcases dfsUnmount_cases wd t path alloc unmounted with ⟨-, ht⟩ | ⟨k, -, ht⟩
    · show TableOk (dfsUnmount wd t path alloc unmounted).2.2
      rwa [ht]
    · have hback : ∀ i e, Entry (t.set k none) i e → Entry t i e := by
        intro i e he
        rcases entry_set he with ⟨-, hoe⟩ | ⟨-, he⟩
        · cases hoe
        · exact he
      show TableOk (dfsUnmount wd t path alloc unmounted).2.2
      rw [ht]
      exact ⟨fun i e he => h.normal i e (hback i e he),
        fun i j e e' he he' => h.unique i j e e' (hback i e he) (hback j e' he')⟩

theorem tableOk_empty {max : Nat} : TableOk (List.replicate max none) := by
  have hno : ∀ i e, ¬ Entry (List.replicate max none) i e := by
    intro i e he
    have hm := List.mem_of_getElem? he
    cases List.eq_of_mem_replicate hm
  exact ⟨fun i e he => absurd he (hno i e), fun i _ e _ he => absurd he (hno i e)⟩

end

/-- In a run along `MountOk` the table is right, calls that fail do not change it, and the lookup of
a normal path finds the file system that it is on. -/
theorem mountTable_ok {wd : List Char} {max : Nat} {as : List MountAct} {t : MountTable}
    (hok : Along (mountStep wd) (MountOk wd) (List.replicate max none) as)
    (hx : exec (mountStep wd) (List.replicate max none) as = some t) :
    TableOk t ∧ (∀ a, (mountCall wd t a).1 ≠ 0 → (mountCall wd t a).2.2 = t) ∧
      ∀ cs, Dir cs →
        (∀ i, dfsFilesystemLookup t (render '/' cs) = some i → ∃ e l, OnFs t cs i e l) ∧
        (dfsFilesystemLookup t (render '/' cs) = none →
          ∀ i e l, Entry t i e → On e l → ¬ l <+: cs) := by
  have h : TableOk t := hok.inv (fun _ _ _ h hok hs => h.step hok hs) hx tableOk_empty
  exact ⟨h, fun _ => mountCall_fails, fun cs hcs => lookup_spec h hcs⟩

def mountOf (path : List Char) : MountCall := ⟨path, some none, some (some 1), true, true, true, true⟩

/-- The root, a directory with another spelling, and the end of that mount -/
def spelledMounts : List MountAct :=
  [.mount (mountOf ['/']), .mount (mountOf ['/', 'm', '/', '.', '/']), .unmount ['m'] true true]

theorem mountOk_spelled :
    Along (mountStep ['/']) (MountOk ['/']) (List.replicate 5 none) spelledMounts := by
  refine ⟨⟨[], [], rfl, rfl, .inl rfl⟩, ⟨['m', '/', '.', '/'], [['m']], rfl, rfl, .inr ?_⟩, trivial,
    trivial⟩
  intro i e he
  have hpath : ∀ o ∈ [some (⟨['/'], 1, none⟩ : Mount), none, none, none, none],
      o.map Mount.path ≠ some (render '/' [['m']]) := by decide
  exact fun hc => hpath _ (List.mem_of_getElem? he) (congrArg some hc)

theorem mountTable_ok_spelled : ∃ t,
    exec (mountStep ['/']) (List.replicate 5 none) spelledMounts = some t ∧ TableOk t :=
  ⟨_, rfl, (mountTable_ok mountOk_spelled rfl).1⟩

/-- The second mount on `/m` is spelled `/m/`. -/
theorem mounted_twice : ∃ t,
    exec (mountStep ['/']) (List.replicate 5 none)
      [.mount (mountOf ['/', 'm']), .mount (mountOf ['/', 'm', '/'])] = some t ∧ ¬ TableOk t := by
  refine ⟨_, rfl, fun h => ?_⟩
  have h01 := h.unique 0 1 ⟨['/', 'm'], 1, none⟩ ⟨['/', 'm'], 1, none⟩ rfl rfl rfl
  cases h01

end Tudu.Dfs
