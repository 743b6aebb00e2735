import TuduOS.Dfs.Fd
import TuduOS.Lib.Lts

/-!
# One descriptor table

The calls of `fd_new`, `fd_get` and `fd_put` on one table, where each `fd_put` gives back a
reference of `fd_new` or of a `fd_get` before it.

* `Desc`: a descriptor in use, with the references that are held of it; `ledger` has them by slot.
* `Sound s`: the table is the ledger. Each count is the number of references, a structure is
  allocated as long as there is one, and the calls answer from the ledger.

**Every state of every run is sound** (`fdTable_sound`).
-/

namespace Tudu.Dfs

open Lts

/-- The structure that `fd_new` gave, whether that reference is held, and the outstanding `fd_get`s -/
structure Desc where
  fd : Addr
  held : Bool
  gets : Nat
  deriving DecidableEq

def Desc.refs (d : Desc) : Nat := (if d.held then 1 else 0) + d.gets

def Desc.keep (d : Desc) : Option Desc := if d.refs = 0 then none else some d

/-- One reference less: that of `fd_new`, or one of a `fd_get`. -/
def Desc.giveBack (d : Desc) (new : Bool) : Option Desc :=
  if new then
    if d.held then some { d with held := false } else none
  else if d.gets = 0 then none
  else some { d with gets := d.gets - 1 }

structure TableRun where
  files : Files
  ledger : Nat → Option Desc

def TableRun.empty : TableRun := ⟨⟨⟨0, fun _ => none⟩, fun _ => none⟩, fun _ => none⟩

inductive FdAct where
  | new (realloc : Bool) (calloc : Option Addr)
  | get (console fd : Int)
  /-- `fd_put` of the structure of a slot -/
  | put (new : Bool) (i : Nat)

def fdStep (fdMax : Nat) (s : TableRun) : FdAct → Option TableRun
  | .new realloc calloc =>
    if calloc.all fun d => (s.files.heap d).isNone then
      (fdNew fdMax s.files realloc calloc).map fun r =>
        ⟨r.2, if r.1 < 0 then s.ledger
          else Function.update s.ledger (r.1 - dfsFdOffset).toNat
            ((r.2.fdt.slot (r.1 - dfsFdOffset).toNat).map fun d => ⟨d, true, 0⟩)⟩
    else none
  | .get console fd =>
    (fdGet s.files console fd).map fun r =>
      let i := (stdio console fd - dfsFdOffset).toNat
      ⟨r.2, if r.1 = none then s.ledger
        else Function.update s.ledger i
          ((s.ledger i).map fun d => { d with gets := d.gets + 1 })⟩
  | .put new i =>
    (s.ledger i).bind fun d =>
      (d.giveBack new).bind fun d' =>
        (fdPut s.files d.fd).map fun files => ⟨files, Function.update s.ledger i d'.keep⟩

/-! ## Soundness -/

/-- A descriptor with `ref_count > 0` -/
def IsOpen (s : Files) (fd : Int) : Prop :=
  ∃ (i : Nat) (d : Addr) (x : DfsFd),
    fd = i + dfsFdOffset ∧ s.fdt.slot i = some d ∧ s.heap d = some x ∧ x.refCount > 0

/-- The table is the ledger. -/
structure Holds (fdMax : Nat) (s : TableRun) : Prop where
  maxfd_le : s.files.fdt.maxfd ≤ fdMax
  slot : ∀ i, s.files.fdt.slot i = (s.ledger i).map Desc.fd
  /-- `ref_count` is the number of references. -/
  count : ∀ i d, s.ledger i = some d → 0 < d.refs ∧
    ∃ x, s.files.heap d.fd = some x ∧ x.magic = dfsFdMagic ∧ x.refCount = d.refs
  /-- A structure without a reference is freed. -/
  freed : ∀ a, s.files.heap a ≠ none → ∃ i d, s.ledger i = some d ∧ d.fd = a
  /-- Distinct descriptors have distinct structures. -/
  inj : ∀ i j d e, s.ledger i = some d → s.ledger j = some e → d.fd = e.fd → i = j

structure Sound (fdMax : Nat) (s : TableRun) : Prop extends Holds fdMax s where
  isOpen : ∀ fd, IsOpen s.files fd ↔ ∃ i d, fd = (i : Nat) + dfsFdOffset ∧ s.ledger i = some d
  get_none : ∀ console fd, ¬ IsOpen s.files (stdio console fd) →
    fdGet s.files console fd = some (none, s.files)
  get_some : ∀ console fd i d, stdio console fd = (i : Nat) + dfsFdOffset → s.ledger i = some d →
    d.refs < 2147483647 → ∃ files, fdGet s.files console fd = some (some d.fd, files)
  /-- `fd_new` takes a new structure for a descriptor that is not in use, and keeps the others. -/
  new : ∀ realloc calloc, (∀ d, calloc = some d → s.files.heap d = none) →
    ∃ r files, fdNew fdMax s.files realloc calloc = some (r, files) ∧
      (∀ i d, s.ledger i = some d →
        files.fdt.slot i = some d.fd ∧ files.heap d.fd = s.files.heap d.fd) ∧
      (r = -1 ∨ ∃ i d, r = (i : Nat) + dfsFdOffset ∧ s.ledger i = none ∧ calloc = some d ∧
        files.fdt.slot i = some d)

section

variable {fdMax i : Nat} {s s' : TableRun} {d : Desc} {a : Addr} {act : FdAct}

theorem Holds.slot_some (h : Holds fdMax s) (ha : s.files.fdt.slot i = some a) :
    ∃ d, s.ledger i = some d ∧ d.fd = a := by
  rw [h.slot] at ha
  exact Option.map_eq_some_iff.mp ha

theorem Holds.live (h : Holds fdMax s) : Live s.files := by
  intro i a ha
  obtain ⟨d, hd, rfl⟩ := h.slot_some ha
  obtain ⟨hpos, x, hx, -, hr⟩ := h.count i d hd
  exact ⟨x, hx, by omega⟩

theorem Holds.isOpen (h : Holds fdMax s) (fd : Int) :
    IsOpen s.files fd ↔ ∃ i d, fd = (i : Nat) + dfsFdOffset ∧ s.ledger i = some d := by
  constructor
  · rintro ⟨i, a, x, hfd, ha, -, -⟩
    obtain ⟨d, hd, -⟩ := h.slot_some ha
    exact ⟨i, d, hfd, hd⟩
  · rintro ⟨i, d, hfd, hd⟩
    obtain ⟨hpos, x, hx, -, hr⟩ := h.count i d hd
    have hslot : s.files.fdt.slot i = some d.fd := by rw [h.slot, hd, Option.map_some]
    exact ⟨i, d.fd, x, hfd, hslot, hx, by omega⟩

/-- A reference more or less of the descriptor of a slot. -/
theorem Holds.setCount {d' : Desc} {x : DfsFd} (h : Holds fdMax s) (hd : s.ledger i = some d)
    (hfd : d'.fd = d.fd) (hx : x.magic = dfsFdMagic ∧ x.refCount = d'.refs) (hpos : 0 < d'.refs) :
    Holds fdMax ⟨{ s.files with heap := Function.update s.files.heap d.fd (some x) },
      Function.update s.ledger i (some d')⟩ where
  maxfd_le := h.maxfd_le
  slot j := by
    show s.files.fdt.slot j = (Function.update s.ledger i (some d') j).map Desc.fd
    rw [h.slot]
    by_cases hj : j = i
    · rw [hj, Function.update_self, hd, Option.map_some, Option.map_some, hfd]
    · rw [Function.update_of_ne hj]
  count j e he := by
    dsimp only at he ⊢
    by_cases hj : j = i
    · rw [hj, Function.update_self] at he
      cases he
      rw [hfd, Function.update_self]
      exact ⟨hpos, x, rfl, hx⟩
    · rw [Function.update_of_ne hj] at he
      rw [Function.update_of_ne fun hc => hj (h.inj j i e d he hd hc)]
      exact h.count j e he
  freed b hb := by
    dsimp only at hb ⊢
    by_cases hbd : b = d.fd
    · exact ⟨i, d', Function.update_self .., by rw [hfd, hbd]⟩
    · rw [Function.update_of_ne hbd] at hb
      obtain ⟨j, e, he, rfl⟩ := h.freed b hb
      have hj : j ≠ i := by
        rintro rfl
        rw [hd] at he
        cases he
        exact hbd rfl
      exact ⟨j, e, (Function.update_of_ne hj ..).trans he, rfl⟩
  inj j k e f he hf hef := by
    dsimp only at he hf
    have hback : ∀ j e, Function.update s.ledger i (some d') j = some e →
        ∃ e', s.ledger j = some e' ∧ e'.fd = e.fd := by
      intro j e he
      by_cases hj : j = i
      · rw [hj, Function.update_self] at he
        cases he
        exact ⟨d, hj ▸ hd, hfd.symm⟩
      · rw [Function.update_of_ne hj] at he
        exact ⟨e, he, rfl⟩
    obtain ⟨e', he', hee⟩ := hback j e he
    obtain ⟨f', hf', hff⟩ := hback k f hf
    exact h.inj j k e' f' he' hf' (by rw [hee, hff, hef])

/-- The last reference of a slot goes. -/
theorem Holds.free (h : Holds fdMax s) (hd : s.ledger i = some d) :
    Holds fdMax ⟨⟨⟨s.files.fdt.maxfd, Function.update s.files.fdt.fds i none⟩,
      Function.update s.files.heap d.fd none⟩, Function.update s.ledger i none⟩ where
  maxfd_le := h.maxfd_le
  slot j := by
    have hi : i < s.files.fdt.maxfd := by
      have hslot : s.files.fdt.slot i = some d.fd := by rw [h.slot, hd, Option.map_some]
      exact (Dfs.slot_some.mp hslot).1
    dsimp only
    rw [slot_update hi]
    by_cases hj : j = i
    · rw [hj, Function.update_self, Function.update_self, Option.map_none]
    · rw [Function.update_of_ne hj, Function.update_of_ne hj, h.slot]
  count j e he := by
    dsimp only at he ⊢
    by_cases hj : j = i
    · rw [hj, Function.update_self] at he
      cases he
    · rw [Function.update_of_ne hj] at he
      rw [Function.update_of_ne fun hc => hj (h.inj j i e d he hd hc)]
      exact h.count j e he
  freed b hb := by
    dsimp only at hb ⊢
    by_cases hbd : b = d.fd
    · rw [hbd, Function.update_self] at hb
      exact absurd rfl hb
    · rw [Function.update_of_ne hbd] at hb
      obtain ⟨j, e, he, rfl⟩ := h.freed b hb
      have hj : j ≠ i := by
        rintro rfl
        rw [hd] at he
        cases he
        exact hbd rfl
      exact ⟨j, e, (Function.update_of_ne hj ..).trans he, rfl⟩
  inj j k e f he hf hef := by
    dsimp only at he hf
    have hback : ∀ j e, Function.update s.ledger i none j = some e → s.ledger j = some e := by
      intro j e he
      by_cases hj : j = i
      · rw [hj, Function.update_self] at he
        cases he
      · rwa [Function.update_of_ne hj] at he
    exact h.inj j k e f (hback j e he) (hback k f hf) hef

/-- A new descriptor in an empty slot. -/
theorem Holds.add {files : Files} {x : DfsFd} (h : Holds fdMax s) (hi : s.ledger i = none)
    (ha : s.files.heap a = none) (hmax : files.fdt.maxfd ≤ fdMax)
    (hslot : files.fdt.slot = Function.update s.files.fdt.slot i (some a))
    (hheap : files.heap = Function.update s.files.heap a (some x))
    (hx : x.magic = dfsFdMagic ∧ x.refCount = 1) :
    Holds fdMax ⟨files, Function.update s.ledger i (some ⟨a, true, 0⟩)⟩ := by
  have hnew : ∀ j d, s.ledger j = some d → d.fd ≠ a := by
    intro j d hd hc
    obtain ⟨-, y, hy, -⟩ := h.count j d hd
    rw [hc, ha] at hy
    cases hy
  refine ⟨hmax, fun j => ?_, fun j e he => ?_, fun b hb => ?_, fun j k e f he hf hef => ?_⟩
  · dsimp only
    rw [hslot]
    by_cases hj : j = i
    · rw [hj, Function.update_self, Function.update_self, Option.map_some]
    · rw [Function.update_of_ne hj, Function.update_of_ne hj, h.slot]
  · dsimp only at he ⊢
    rw [hheap]
    by_cases hj : j = i
    · rw [hj, Function.update_self] at he
      cases he
      exact ⟨Nat.one_pos, x, Function.update_self .., hx⟩
    · rw [Function.update_of_ne hj] at he
      rw [Function.update_of_ne (hnew j e he)]
      exact h.count j e he
  · dsimp only at hb ⊢
    rw [hheap] at hb
    by_cases hba : b = a
    · exact ⟨i, _, Function.update_self .., hba.symm⟩
    · rw [Function.update_of_ne hba] at hb
      obtain ⟨j, e, he, rfl⟩ := h.freed b hb
      have hj : j ≠ i := by
        rintro rfl
        rw [hi] at he
        cases he
      exact ⟨j, e, (Function.update_of_ne hj ..).trans he, rfl⟩
  · dsimp only at he hf
    by_cases hj : j = i
    · by_cases hk : k = i
      · rw [hj, hk]
      · rw [hj, Function.update_self] at he
        rw [Function.update_of_ne hk] at hf
        cases he
        exact absurd hef.symm (hnew k f hf)
    · rw [Function.update_of_ne hj] at he
      by_cases hk : k = i
      · rw [hk, Function.update_self] at hf
        cases hf
        exact absurd hef (hnew j e he)
      · rw [Function.update_of_ne hk] at hf
        exact h.inj j k e f he hf hef

/-! ## The steps -/

theorem Desc.giveBack_eq {d d' : Desc} {new : Bool} (h : d.giveBack new = some d') :
    d'.fd = d.fd ∧ d.refs = d'.refs + 1 := by
  obtain ⟨fd, held, gets⟩ := d
  unfold Desc.giveBack at h
  split at h
  · split at h
    · next hheld =>
      cases h
      cases held with
      | false => cases hheld
      | true => exact ⟨rfl, Nat.add_comm 1 _ |>.trans (congrArg (· + 1) (Nat.zero_add _).symm)⟩
    · cases h
  · split at h
    · cases h
    · next hg =>
      cases h
      refine ⟨rfl, ?_⟩
      show (if held then 1 else 0) + gets = (if held then 1 else 0) + (gets - 1) + 1
      have hg' : gets ≠ 0 := hg
      omega

theorem Holds.new (realloc : Bool) (calloc : Option Addr) (h : Holds fdMax s)
    (hfresh : ∀ d, calloc = some d → s.files.heap d = none) :
    ∃ r files, fdNew fdMax s.files realloc calloc = some (r, files) ∧
      files.fdt.maxfd ≤ fdMax ∧
      ((r = -1 ∧ files.fdt.slot = s.files.fdt.slot ∧ files.heap = s.files.heap) ∨
        ∃ (j : Nat) (b : Addr), r = j + dfsFdOffset ∧ calloc = some b ∧ s.ledger j = none ∧
          s.files.heap b = none ∧
          files.fdt.slot = Function.update s.files.fdt.slot j (some b) ∧
          files.heap = Function.update s.files.heap b (some ⟨dfsFdMagic, 1, none⟩)) := by
  obtain ⟨r, files, hr, hmax, hcases⟩ :=
    fdNew_spec realloc calloc h.live h.maxfd_le
  refine ⟨r, files, hr, hmax, hcases.imp_right ?_⟩
  rintro ⟨j, b, hrj, hb, hempty, hslot, hheap⟩
  refine ⟨j, b, hrj, hb, ?_, hfresh b hb, hslot, hheap⟩
  rw [h.slot] at hempty
  exact Option.map_eq_none_iff.mp hempty

theorem Holds.get_none {console fd : Int} (h : Holds fdMax s)
    (hc : ¬ IsOpen s.files (stdio console fd)) :
    fdGet s.files console fd = some (none, s.files) := by
  refine fdGet_none ?_
  by_contra hno
  obtain ⟨h0, hne⟩ := not_or.mp hno
  obtain ⟨a, ha⟩ := Option.ne_none_iff_exists'.mp hne
  obtain ⟨d, hd, rfl⟩ := h.slot_some ha
  exact hc ((h.isOpen _).mpr ⟨_, d, by omega, hd⟩)

theorem Holds.get_some {console fd : Int} (h : Holds fdMax s)
    (hfd : stdio console fd = i + dfsFdOffset) (hd : s.ledger i = some d) :
    ∃ x, s.files.heap d.fd = some x ∧ x.magic = dfsFdMagic ∧ x.refCount = d.refs ∧
      fdGet s.files console fd = if d.refs < 2147483647 then some (some d.fd, { s.files with
        heap := Function.update s.files.heap d.fd (some { x with refCount := x.refCount + 1 }) })
        else none := by
  obtain ⟨hpos, x, hx, hmagic, hr⟩ := h.count i d hd
  have hi : (stdio console fd - dfsFdOffset).toNat = i := by omega
  have hslot : s.files.fdt.slot (stdio console fd - dfsFdOffset).toNat = some d.fd := by
    rw [hi, h.slot, hd, Option.map_some]
  refine ⟨x, hx, hmagic, hr, ?_⟩
  split
  · exact fdGet_some (by omega) hslot hx hmagic (by omega)
  · exact fdGet_full (by omega) hslot hx hmagic (by omega)

theorem Holds.step (h : Holds fdMax s) (hs : fdStep fdMax s act = some s') : Holds fdMax s' := by
  cases act with
  | new realloc calloc =>
    have hs' : (if calloc.all fun d => (s.files.heap d).isNone then
      (fdNew fdMax s.files realloc calloc).map _ else none) = some s' := hs
    split at hs'
    · next hfresh =>
      obtain ⟨r, files, hr, hmax, hcases⟩ := h.new realloc calloc fun d hd => by
        rw [hd] at hfresh
        exact Option.isNone_iff_eq_none.mp hfresh
      rw [hr, Option.map_some] at hs'
      cases hs'
      rcases hcases with ⟨rfl, hslot, hheap⟩ | ⟨j, b, rfl, -, hj, hb, hslot, hheap⟩
      · refine ⟨hmax, ?_, ?_, ?_, h.inj⟩
        · intro i
          rw [hslot]
          exact h.slot i
        · rw [hheap]
          exact h.count
        · rw [hheap]
          exact h.freed
      · have hneg : ¬ (j : Int) + dfsFdOffset < 0 := by
          have : dfsFdOffset = 3 := rfl
          omega
        have hnat : ((j : Int) + dfsFdOffset - dfsFdOffset).toNat = j := by omega
        dsimp only
        rw [if_neg hneg, hnat, hslot, Function.update_self, Option.map_some]
        exact h.add hj hb hmax hslot hheap ⟨rfl, rfl⟩
    · cases hs'
  | get console fd =>
    have hs' : (fdGet s.files console fd).map _ = some s' := hs
    by_cases hopen : IsOpen s.files (stdio console fd)
    · obtain ⟨i, d, hfd, hd⟩ := (h.isOpen _).mp hopen
      obtain ⟨x, -, hmagic, hr, hget⟩ := h.get_some hfd hd
      have hi : (stdio console fd - dfsFdOffset).toNat = i := by omega
      rw [hget] at hs'
      split at hs'
      · cases hs'
        dsimp only
        rw [if_neg (fun hc => by cases hc), hi, hd, Option.map_some]
        refine h.setCount hd rfl ⟨hmagic, ?_⟩ ?_
        · show x.refCount + 1 = ((if d.held then 1 else 0) + (d.gets + 1) : Nat)
          rw [hr]
          unfold Desc.refs
          omega
        · show 0 < (if d.held then 1 else 0) + (d.gets + 1)
          omega
      · cases hs'
    · rw [h.get_none hopen] at hs'
      cases hs'
      exact h
  | put new i =>
    have hs' : (s.ledger i).bind _ = some s' := hs
    obtain ⟨d, hd, hs'⟩ := Option.bind_eq_some_iff.mp hs'
    obtain ⟨d', hd', hs'⟩ := Option.bind_eq_some_iff.mp hs'
    obtain ⟨hfd, hrefs⟩ := Desc.giveBack_eq hd'
    obtain ⟨hpos, x, hx, hmagic, hr⟩ := h.count i d hd
    have hslot : s.files.fdt.slot i = some d.fd := by rw [h.slot, hd, Option.map_some]
    by_cases h0 : d'.refs = 0
    · -- the last reference
      have hkeep : d'.keep = none := if_pos h0
      rw [fdPut_last hx (by omega) hslot fun j hj => by
        obtain ⟨e, he, hed⟩ := h.slot_some hj
        exact h.inj j i e d he hd hed, hkeep] at hs'
      cases hs'
      exact h.free hd
    · have hkeep : d'.keep = some d' := if_neg h0
      rw [fdPut_more hx (by omega), hkeep] at hs'
      cases hs'
      exact h.setCount hd hfd ⟨hmagic, by show x.refCount - 1 = _; omega⟩ (by omega)

theorem Holds.sound (h : Holds fdMax s) : Sound fdMax s where
  toHolds := h
  isOpen := h.isOpen
  get_none _ _ hc := h.get_none hc
  get_some console fd i d hfd hd hlt := by
    obtain ⟨x, -, -, -, hget⟩ := h.get_some hfd hd
    rw [if_pos hlt] at hget
    exact ⟨_, hget⟩
  new realloc calloc hfresh := by
    obtain ⟨r, files, hr, -, hcases⟩ := h.new realloc calloc hfresh
    refine ⟨r, files, hr, ?_⟩
    rcases hcases with ⟨rfl, hslot, hheap⟩ | ⟨j, b, rfl, hb, hj, hnew, hslot, hheap⟩
    · refine ⟨fun i d hd => ?_, .inl rfl⟩
      rw [hslot, hheap, h.slot, hd]
      exact ⟨rfl, rfl⟩
    · refine ⟨fun i d hd => ?_, .inr ⟨j, b, rfl, hj, hb, ?_⟩⟩
      · have hij : i ≠ j := by
          rintro rfl
          rw [hj] at hd
          cases hd
        have hdb : d.fd ≠ b := by
          intro hc
          obtain ⟨-, x, hx, -⟩ := h.count i d hd
          rw [hc, hnew] at hx
          cases hx
        rw [hslot, hheap, Function.update_of_ne hij, Function.update_of_ne hdb, h.slot, hd]
        exact ⟨rfl, rfl⟩
      · rw [hslot, Function.update_self]

theorem holds_empty : Holds fdMax .empty where
  maxfd_le := Nat.zero_le _
  slot _ := rfl
  count i d hd := by cases hd
  freed a ha := absurd rfl ha
  inj i j d e hd := by cases hd

end

/-- Every state of every run of calls on a table is sound. -/
theorem fdTable_sound {fdMax : Nat} {as : List FdAct} {s : TableRun}
    (hx : exec (fdStep fdMax) .empty as = some s) : Sound fdMax s :=
  (exec_inv (fun _ _ _ h hs => h.step hs) hx holds_empty).sound

/-- A descriptor is opened, taken, closed and given back; its structure is gone. -/
theorem fdTable_sound_close :
    ∃ s, exec (fdStep 16) .empty [.new true (some 100), .get 3 3, .put true 0, .put false 0] =
      some s ∧ Sound 16 s := by
  have h : (exec (fdStep 16) .empty
      [.new true (some 100), .get 3 3, .put true 0, .put false 0]).isSome := by decide
  obtain ⟨s, hs⟩ := Option.isSome_iff_exists.mp h
  exact ⟨s, hs, fdTable_sound hs⟩

/-- With the console open as descriptor 3, `fd_get(1)` succeeds. -/
theorem stdio_not_open :
    ∃ s, exec (fdStep 16) .empty [.new true (some 100)] = some s ∧ ¬ IsOpen s.files 1 ∧
      (fdGet s.files 3 1).map Prod.fst = some (some 100) := by
  refine ⟨_, rfl, ?_, by decide⟩
  rintro ⟨i, a, x, hi, -⟩
  have : dfsFdOffset = 3 := rfl
  omega

end Tudu.Dfs
