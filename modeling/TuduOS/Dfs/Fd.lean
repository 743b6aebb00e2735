import Mathlib.Data.List.Range
import Mathlib.Logic.Function.Basic

/-!
# File descriptors (`dfs.c`)

A `struct dfs_fd` is named by its address, and in `heap` while it is allocated. A descriptor table
has a slot at every index of the memory behind `fds`.

* `fdNew`, `fdGet`, `fdPut`: the functions, on the table of the running thread. Each runs under the
  lock of the file system.
* What `rt_realloc` and `rt_calloc` answer is an argument.
* A structure that is used while it is not allocated, or a count that leaves `int`, has no next
  state.

Left out: the fields of a `struct dfs_fd` that only its file system uses.
-/

namespace Tudu.Dfs

abbrev Addr := Nat

/-- `DFS_FD_OFFSET` -/
def dfsFdOffset : Int := 3

/-- `DFS_FD_MAGIC` -/
def dfsFdMagic : Nat := 0xfdfd

structure DfsFd where
  magic : Nat
  refCount : Int
  path : Option Addr
  deriving DecidableEq

structure FdTable where
  maxfd : Nat
  fds : Nat → Option Addr

structure Files where
  fdt : FdTable
  heap : Addr → Option DfsFd

/-- The `for` of `fd_alloc`, from `idx` over `n` slots -/
def emptySlot (s : Files) : Nat → Nat → Option Nat
  | 0, idx => some idx
  | n + 1, idx =>
    match s.fdt.fds idx with
    | none => some idx
    | some d => (s.heap d).bind fun x => if x.refCount = 0 then some idx else emptySlot s n (idx + 1)

/-- The table after `rt_realloc`. -/
def FdTable.grow (fdMax : Nat) (t : FdTable) : FdTable :=
  let cnt := if t.maxfd + 4 > fdMax then fdMax else t.maxfd + 4
  ⟨cnt, fun i => if t.maxfd ≤ i ∧ i < cnt then none else t.fds i⟩

/-- `fd_alloc`; `fdMax`: `DFS_FD_MAX`. -/
def fdAlloc (fdMax : Nat) (s : Files) (startfd : Nat) (realloc : Bool) (calloc : Option Addr) :
    Option (Nat × Files) :=
  (emptySlot s (s.fdt.maxfd - startfd) startfd).bind fun idx =>
    if idx = s.fdt.maxfd ∧ s.fdt.maxfd < fdMax ∧ realloc = false then some (idx, s)
    else
      let t := if idx = s.fdt.maxfd ∧ s.fdt.maxfd < fdMax then s.fdt.grow fdMax else s.fdt
      if idx < t.maxfd ∧ t.fds idx = none then
        match calloc with
        | none => some (t.maxfd, { s with fdt := t })
        | some d =>
          some (idx, ⟨⟨t.maxfd, Function.update t.fds idx (some d)⟩,
            Function.update s.heap d (some ⟨0, 0, none⟩)⟩)
      else some (idx, { s with fdt := t })

/-- `fd_new` -/
def fdNew (fdMax : Nat) (s : Files) (realloc : Bool) (calloc : Option Addr) :
    Option (Int × Files) :=
  (fdAlloc fdMax s 0 realloc calloc).bind fun r =>
    if r.1 = r.2.fdt.maxfd then some (-(1 + dfsFdOffset) + dfsFdOffset, r.2)
    else
      (r.2.fdt.fds r.1).bind fun d =>
        (r.2.heap d).bind fun x =>
          some (r.1 + dfsFdOffset, { r.2 with
            heap := Function.update r.2.heap d (some { x with refCount := 1, magic := dfsFdMagic }) })

/-- The descriptors 0, 1 and 2 stand for that of the console, `libc_stdio_get_console()`. -/
def stdio (console fd : Int) : Int := if 0 ≤ fd ∧ fd ≤ 2 then console else fd

/-- `fd_get` -/
def fdGet (s : Files) (console fd : Int) : Option (Option Addr × Files) :=
  let fd := stdio console fd - dfsFdOffset
  if fd < 0 ∨ fd ≥ s.fdt.maxfd then some (none, s)
  else
    match s.fdt.fds fd.toNat with
    | none => some (none, s)
    | some d =>
      (s.heap d).bind fun x =>
        if x.magic ≠ dfsFdMagic then some (none, s)
        else if x.refCount ≥ 2147483647 then none
        else some (some d, { s with
          heap := Function.update s.heap d (some { x with refCount := x.refCount + 1 }) })

/-- The first slot of `fd`. -/
def slotOf (t : FdTable) (fd : Addr) : Option Nat :=
  (List.range t.maxfd).find? fun i => t.fds i = some fd

/-- `fd_put` -/
def fdPut (s : Files) (fd : Addr) : Option Files :=
  (s.heap fd).bind fun x =>
    if x.refCount ≤ -2147483648 then none
    else if x.refCount - 1 = 0 then
      match slotOf s.fdt fd with
      | some i =>
        some ⟨⟨s.fdt.maxfd, Function.update s.fdt.fds i none⟩, Function.update s.heap fd none⟩
      | none =>
        some { s with heap := Function.update s.heap fd (some { x with refCount := 0 }) }
    else some { s with
      heap := Function.update s.heap fd (some { x with refCount := x.refCount - 1 }) }

/-- What the table has for a descriptor. -/
def FdTable.slot (t : FdTable) (i : Nat) : Option Addr := if i < t.maxfd then t.fds i else none

/-! ## The slots -/

section

variable {s s' : Files} {t : FdTable} {fdMax n idx i : Nat} {d : Addr} {x : DfsFd}
  {console fd : Int} {realloc : Bool} {calloc : Option Addr}

/-- The slots before the one that is found are in use. -/
theorem emptySlot_le (h : emptySlot s n idx = some i) : idx ≤ i ∧ i ≤ idx + n := by
  induction n generalizing idx with
  | zero =>
    cases h
    omega
  | succ n ih =>
    unfold emptySlot at h
    split at h
    · cases h
      omega
    · obtain ⟨x, -, h⟩ := Option.bind_eq_some_iff.mp h
      split at h
      · cases h
        omega
      · have := ih h
        omega

/-- A slot that is found is empty, or its structure is not in use. -/
theorem emptySlot_free (h : emptySlot s n idx = some i) (hi : i < idx + n) :
    s.fdt.fds i = none ∨ ∃ d x, s.fdt.fds i = some d ∧ s.heap d = some x ∧ x.refCount = 0 := by
  induction n generalizing idx with
  | zero =>
    cases h
    omega
  | succ n ih =>
    unfold emptySlot at h
    split at h
    · cases h
      left
      assumption
    · next d hd =>
      obtain ⟨x, hx, h⟩ := Option.bind_eq_some_iff.mp h
      split at h
      · next h0 =>
        cases h
        exact .inr ⟨d, x, hd, hx, h0⟩
      · exact ih h (by omega)

/-- With every slot empty or in use, the search ends. -/
theorem emptySlot_isSome
    (h : ∀ j, idx ≤ j → j < idx + n → ∀ d, s.fdt.fds j = some d → (s.heap d).isSome) :
    (emptySlot s n idx).isSome := by
  induction n generalizing idx with
  | zero => rfl
  | succ n ih =>
    unfold emptySlot
    split
    · rfl
    · next d hd =>
      obtain ⟨x, hx⟩ := Option.isSome_iff_exists.mp (h idx (Nat.le_refl _) (by omega) d hd)
      rw [hx, Option.bind_some]
      split
      · rfl
      · exact ih fun j h1 h2 => h j (by omega) (by omega)

theorem slotOf_some (h : slotOf t d = some i) : i < t.maxfd ∧ t.fds i = some d := by
  have hi := List.mem_range.mp (List.mem_of_find?_eq_some h)
  have hd := List.find?_some h
  exact ⟨hi, by simpa using hd⟩

theorem slotOf_none (h : slotOf t d = none) (hi : i < t.maxfd) : t.fds i ≠ some d := by
  have := List.find?_eq_none.mp h i (List.mem_range.mpr hi)
  simpa using this

theorem slot_some : t.slot i = some d ↔ i < t.maxfd ∧ t.fds i = some d := by
  unfold FdTable.slot
  split
  · next h => exact ⟨fun hd => ⟨h, hd⟩, fun hd => hd.2⟩
  · next h => exact ⟨fun hd => (by cases hd), fun hd => absurd hd.1 h⟩

theorem slot_of_lt (h : i < t.maxfd) : t.slot i = t.fds i := if_pos h

theorem slot_of_ge (h : t.maxfd ≤ i) : t.slot i = none := if_neg (Nat.not_lt.mpr h)

/-- A slot is written. -/
theorem slot_update {o : Option Addr} (h : i < t.maxfd) :
    FdTable.slot ⟨t.maxfd, Function.update t.fds i o⟩ = Function.update t.slot i o := by
  funext j
  by_cases hj : j = i
  · rw [hj, Function.update_self]
    unfold FdTable.slot
    rw [if_pos h]
    exact Function.update_self ..
  · rw [Function.update_of_ne hj]
    unfold FdTable.slot
    dsimp only
    rw [Function.update_of_ne hj]

/-- The new slots are empty. -/
theorem slot_grow (h : t.maxfd ≤ fdMax) : (t.grow fdMax).slot = t.slot := by
  have hcnt : (t.grow fdMax).maxfd = if t.maxfd + 4 > fdMax then fdMax else t.maxfd + 4 := rfl
  have hle : t.maxfd ≤ (t.grow fdMax).maxfd := by
    rw [hcnt]
    split <;> omega
  funext i
  rcases Nat.lt_or_ge i t.maxfd with hi | hi
  · rw [slot_of_lt hi, slot_of_lt (by omega)]
    exact if_neg (by omega)
  · rw [slot_of_ge hi]
    rcases Nat.lt_or_ge i (t.grow fdMax).maxfd with hg | hg
    · rw [slot_of_lt hg]
      exact if_pos ⟨hi, hg⟩
    · exact slot_of_ge hg

theorem maxfd_grow_le : (t.grow fdMax).maxfd ≤ fdMax := by
  show (if t.maxfd + 4 > fdMax then fdMax else t.maxfd + 4) ≤ fdMax
  split <;> omega

theorem lt_maxfd_grow (h : t.maxfd < fdMax) : t.maxfd < (t.grow fdMax).maxfd := by
  show t.maxfd < if t.maxfd + 4 > fdMax then fdMax else t.maxfd + 4
  split <;> omega

/-- The only slot of a structure. -/
theorem slotOf_eq (hd : t.slot i = some d) (hinj : ∀ j, t.slot j = some d → j = i) :
    slotOf t d = some i := by
  obtain ⟨hi, hfd⟩ := slot_some.mp hd
  cases hs : slotOf t d with
  | none => exact absurd hfd (slotOf_none hs hi)
  | some j => rw [hinj j (slot_some.mpr (slotOf_some hs))]

/-! ## What the calls do -/

/-- Each slot is empty, or its structure is in use. -/
def Live (s : Files) : Prop :=
  ∀ i d, s.fdt.slot i = some d → ∃ x, s.heap d = some x ∧ x.refCount ≠ 0

/-- `fd_alloc` with live slots: an empty slot, a new structure in it, or neither. -/
theorem fdAlloc_spec (realloc : Bool) (calloc : Option Addr) (hs : Live s) (hmax : s.fdt.maxfd ≤ fdMax) :
    ∃ r s', fdAlloc fdMax s 0 realloc calloc = some (r, s') ∧ s'.fdt.maxfd ≤ fdMax ∧
      ((r = s'.fdt.maxfd ∧ s'.fdt.slot = s.fdt.slot ∧ s'.heap = s.heap) ∨
        ∃ d, calloc = some d ∧ r < s'.fdt.maxfd ∧ s.fdt.slot r = none ∧
          s'.fdt.slot = Function.update s.fdt.slot r (some d) ∧
          s'.heap = Function.update s.heap d (some ⟨0, 0, none⟩)) := by
  have hsome : (emptySlot s (s.fdt.maxfd - 0) 0).isSome := emptySlot_isSome fun j _ hj d hd => by
    obtain ⟨x, hx, -⟩ := hs j d (slot_some.mpr ⟨by omega, hd⟩)
    rw [hx]
    rfl
  obtain ⟨idx, hidx⟩ := Option.isSome_iff_exists.mp hsome
  have hle := (emptySlot_le hidx).2
  have hempty : s.fdt.slot idx = none := by
    rcases Nat.lt_or_ge idx s.fdt.maxfd with hlt | hge
    · rcases emptySlot_free hidx (by omega) with h | ⟨d, x, hd, hx, h0⟩
      · rw [slot_of_lt hlt, h]
      · obtain ⟨x', hx', h0'⟩ := hs idx d (slot_some.mpr ⟨hlt, hd⟩)
        rw [hx] at hx'
        cases hx'
        exact absurd h0 h0'
    · exact slot_of_ge hge
  unfold fdAlloc
  rw [hidx, Option.bind_some]
  split
  · next hc => exact ⟨_, _, rfl, hmax, .inl ⟨hc.1, rfl, rfl⟩⟩
  · -- the table behind `rt_realloc`
    obtain ⟨t, ht, hslot, htmax, hlast⟩ : ∃ t, (if idx = s.fdt.maxfd ∧ s.fdt.maxfd < fdMax
        then s.fdt.grow fdMax else s.fdt) = t ∧ t.slot = s.fdt.slot ∧ t.maxfd ≤ fdMax ∧
        (¬ idx < t.maxfd → idx = t.maxfd) := by
      refine ⟨_, rfl, ?_⟩
      split
      · next hg =>
        refine ⟨slot_grow hmax, maxfd_grow_le, fun hc => ?_⟩
        have := lt_maxfd_grow hg.2
        omega
      · exact ⟨rfl, hmax, fun hc => by omega⟩
    dsimp only
    rw [ht]
    rcases Nat.lt_or_ge idx t.maxfd with hlt | hge
    · have hnone : t.fds idx = none := by
        rw [← slot_of_lt hlt, hslot, hempty]
      rw [if_pos ⟨hlt, hnone⟩]
      cases calloc with
      | none => exact ⟨_, _, rfl, htmax, .inl ⟨rfl, hslot, rfl⟩⟩
      | some d =>
        refine ⟨_, _, rfl, htmax, .inr ⟨d, rfl, hlt, hempty, ?_, rfl⟩⟩
        rw [← hslot]
        exact slot_update hlt
    · rw [if_neg fun hc => absurd hc.1 (Nat.not_lt.mpr hge)]
      exact ⟨_, _, rfl, htmax, .inl ⟨hlast (Nat.not_lt.mpr hge), hslot, rfl⟩⟩

/-- `fd_new` with live slots: a new structure in an empty slot, or -1. -/
theorem fdNew_spec (realloc : Bool) (calloc : Option Addr) (hs : Live s) (hmax : s.fdt.maxfd ≤ fdMax) :
    ∃ r s', fdNew fdMax s realloc calloc = some (r, s') ∧ s'.fdt.maxfd ≤ fdMax ∧
      ((r = -1 ∧ s'.fdt.slot = s.fdt.slot ∧ s'.heap = s.heap) ∨
        ∃ (idx : Nat) (d : Addr), r = idx + dfsFdOffset ∧ calloc = some d ∧ s.fdt.slot idx = none ∧
          s'.fdt.slot = Function.update s.fdt.slot idx (some d) ∧
          s'.heap = Function.update s.heap d (some ⟨dfsFdMagic, 1, none⟩)) := by
  obtain ⟨idx, s', ha, hmax', h⟩ := fdAlloc_spec realloc calloc hs hmax
  unfold fdNew
  rw [ha, Option.bind_some]
  rcases h with ⟨hr, hslot, hheap⟩ | ⟨d, hd, hlt, hempty, hslot, hheap⟩
  · rw [if_pos hr]
    exact ⟨_, _, rfl, hmax', .inl ⟨rfl, hslot, hheap⟩⟩
  · have hfd : s'.fdt.fds idx = some d := by
      rw [← slot_of_lt hlt, hslot, Function.update_self]
    have hx : s'.heap d = some ⟨0, 0, none⟩ := by rw [hheap, Function.update_self]
    have hne : ¬ (idx, s').1 = (idx, s').2.fdt.maxfd := Nat.ne_of_lt hlt
    rw [if_neg hne]
    show ∃ r t, ((s'.fdt.fds idx).bind _) = some (r, t) ∧ _
    rw [hfd, Option.bind_some, hx, Option.bind_some]
    refine ⟨_, _, rfl, hmax', .inr ⟨idx, d, rfl, hd, hempty, hslot, ?_⟩⟩
    show Function.update s'.heap d _ = _
    rw [hheap, Function.update_idem]

/-- `fd_get` of a descriptor without a structure. -/
theorem fdGet_none (h : stdio console fd - dfsFdOffset < 0 ∨
    s.fdt.slot (stdio console fd - dfsFdOffset).toNat = none) :
    fdGet s console fd = some (none, s) := by
  unfold fdGet
  dsimp only
  by_cases hc : stdio console fd - dfsFdOffset < 0 ∨ stdio console fd - dfsFdOffset ≥ s.fdt.maxfd
  · rw [if_pos hc]
  · have hslot := h.resolve_left fun hneg => hc (.inl hneg)
    rw [slot_of_lt (by omega)] at hslot
    rw [if_neg hc, hslot]

/-- `fd_get` of a descriptor with a structure. -/
theorem fdGet_some (h0 : 0 ≤ stdio console fd - dfsFdOffset)
    (hd : s.fdt.slot (stdio console fd - dfsFdOffset).toNat = some d) (hx : s.heap d = some x)
    (hmagic : x.magic = dfsFdMagic) (hlt : x.refCount < 2147483647) :
    fdGet s console fd = some (some d, { s with
      heap := Function.update s.heap d (some { x with refCount := x.refCount + 1 }) }) := by
  obtain ⟨hi, hfd⟩ := slot_some.mp hd
  unfold fdGet
  dsimp only
  rw [if_neg (by omega), hfd]
  dsimp only
  rw [hx, Option.bind_some, if_neg (fun hne => hne hmagic), if_neg (by omega)]

/-- `fd_get` of a descriptor with as many references as an `int` can count. -/
theorem fdGet_full (h0 : 0 ≤ stdio console fd - dfsFdOffset)
    (hd : s.fdt.slot (stdio console fd - dfsFdOffset).toNat = some d) (hx : s.heap d = some x)
    (hmagic : x.magic = dfsFdMagic) (hge : x.refCount ≥ 2147483647) :
    fdGet s console fd = none := by
  obtain ⟨hi, hfd⟩ := slot_some.mp hd
  unfold fdGet
  dsimp only
  rw [if_neg (by omega), hfd]
  dsimp only
  rw [hx, Option.bind_some, if_neg (fun hne => hne hmagic), if_pos hge]

/-- `fd_put` of the last reference: the structure is freed. -/
theorem fdPut_last (hx : s.heap d = some x) (h1 : x.refCount = 1) (hd : s.fdt.slot i = some d)
    (hinj : ∀ j, s.fdt.slot j = some d → j = i) :
    fdPut s d = some ⟨⟨s.fdt.maxfd, Function.update s.fdt.fds i none⟩,
      Function.update s.heap d none⟩ := by
  unfold fdPut
  rw [hx, Option.bind_some, if_neg (by omega), if_pos (by omega), slotOf_eq hd hinj]

/-- `fd_put` of another reference. -/
theorem fdPut_more (hx : s.heap d = some x) (h1 : 1 < x.refCount) :
    fdPut s d = some { s with
      heap := Function.update s.heap d (some { x with refCount := x.refCount - 1 }) } := by
  unfold fdPut
  rw [hx, Option.bind_some, if_neg (by omega), if_neg (by omega)]

/-- The structure that a descriptor names. -/
def named (s : Files) (console fd : Int) : Option Addr :=
  if stdio console fd - dfsFdOffset < 0 then none
  else s.fdt.slot (stdio console fd - dfsFdOffset).toNat

/-- What `fd_get` can do. -/
theorem fdGet_cases {r : Option Addr} (h : fdGet s console fd = some (r, s')) :
    (r = none ∧ s' = s) ∨ ∃ d x, r = some d ∧ named s console fd = some d ∧ s.heap d = some x ∧
      x.magic = dfsFdMagic ∧ x.refCount < 2147483647 ∧ s' = { s with
        heap := Function.update s.heap d (some { x with refCount := x.refCount + 1 }) } := by
  unfold fdGet at h
  dsimp only at h
  split at h
  · cases h
    exact .inl ⟨rfl, rfl⟩
  · next hin =>
    split at h
    · cases h
      exact .inl ⟨rfl, rfl⟩
    · next d hd =>
      obtain ⟨x, hx, h⟩ := Option.bind_eq_some_iff.mp h
      split at h
      · cases h
        exact .inl ⟨rfl, rfl⟩
      · next hmagic =>
        split at h
        · cases h
        · next hlt =>
          cases h
          refine .inr ⟨d, x, rfl, ?_, hx, not_not.mp hmagic, by omega, rfl⟩
          unfold named
          rw [if_neg (by omega), slot_of_lt (by omega), hd]

/-- What `fd_put` can do. -/
theorem fdPut_cases (h : fdPut s d = some s') : ∃ x, s.heap d = some x ∧
    ((x.refCount ≠ 1 ∧ s' = { s with
        heap := Function.update s.heap d (some { x with refCount := x.refCount - 1 }) }) ∨
      (x.refCount = 1 ∧ ∃ i, s.fdt.slot i = some d ∧
        s' = ⟨⟨s.fdt.maxfd, Function.update s.fdt.fds i none⟩, Function.update s.heap d none⟩) ∨
      (x.refCount = 1 ∧ (∀ i, s.fdt.slot i ≠ some d) ∧ s' = { s with
        heap := Function.update s.heap d (some { x with refCount := 0 }) })) := by
  unfold fdPut at h
  obtain ⟨x, hx, h⟩ := Option.bind_eq_some_iff.mp h
  refine ⟨x, hx, ?_⟩
  split at h
  · cases h
  · split at h
    · next h0 =>
      split at h
      · next i hi =>
        cases h
        exact .inr (.inl ⟨by omega, i, slot_some.mpr (slotOf_some hi), rfl⟩)
      · next hnone =>
        cases h
        refine .inr (.inr ⟨by omega, fun i hi => ?_, rfl⟩)
        obtain ⟨hlt, hd⟩ := slot_some.mp hi
        exact slotOf_none hnone hlt hd
    · cases h
      exact .inl ⟨by omega, rfl⟩

end

end Tudu.Dfs
