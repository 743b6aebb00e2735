import Mathlib.Data.Finset.Card
import Mathlib.Data.Finset.Range
import TuduOS.Lwt.Files

/-!
# Structures in more than one table

* `FileSys.count`: how many slots of all tables point to a structure.
* `Shared s`: no structure has more slots than references, none that is freed has a slot, and a
  process has only the descriptor of the console from `lwt_execve`.
* `Keeps s act`: the console has a reference more than slots when a process is made, a reference
  that is put back is not that of a slot in another table, and a process that ends closes no
  descriptor of the kernel that another process has too.
* `shared_of_keeps`: all runs along `Keeps` go through `Shared` states.
-/

namespace Tudu.Lwt

open Dfs Lts

/-! ## Counting slots -/

/-- The slots of a structure. -/
def slots (t : FdTable) (d : Addr) : Finset Nat :=
  (Finset.range t.maxfd).filter fun i => t.fds i = some d

def total (f : Proc → Nat) : List Proc → Nat
  | [] => 0
  | p :: ps => f p + total f ps

def Proc.count (d : Addr) (p : Proc) : Nat := (slots p.fdt d).card + (slots p.dfsFdt d).card

def FileSys.count (s : FileSys) (d : Addr) : Nat :=
  (slots s.kernel d).card + total (Proc.count d) s.procs

section

variable {t t' : FdTable} {d e : Addr} {i : Nat} {f : Proc → Nat} {g : Proc → Proc} {p q : Proc}
  {ps : List Proc}

theorem mem_slots : i ∈ slots t d ↔ t.slot i = some d := by
  unfold slots
  rw [Finset.mem_filter, Finset.mem_range, slot_some]

theorem slots_congr (h : t'.slot = t.slot) : slots t' d = slots t d := by
  ext i
  rw [mem_slots, mem_slots, h]

/-- A structure gets a slot that was empty. -/
theorem card_slots_add (hi : t.slot i = none) (h : t'.slot = Function.update t.slot i (some e)) :
    (slots t' d).card = (slots t d).card + if d = e then 1 else 0 := by
  have hni : i ∉ slots t d := by
    rw [mem_slots, hi]
    exact fun hc => by cases hc
  by_cases hd : d = e
  · have hins : slots t' d = insert i (slots t d) := by
      ext j
      rw [Finset.mem_insert, mem_slots, mem_slots, h]
      by_cases hj : j = i
      · rw [hj, Function.update_self, hd]
        exact ⟨fun _ => .inl rfl, fun _ => rfl⟩
      · rw [Function.update_of_ne hj]
        exact ⟨.inr, fun hc => hc.resolve_left hj⟩
    rw [hins, Finset.card_insert_of_notMem hni, if_pos hd]
  · have hsame : slots t' d = slots t d := by
      ext j
      rw [mem_slots, mem_slots, h]
      by_cases hj : j = i
      · rw [hj, Function.update_self, hi]
        exact ⟨fun hc => absurd (Option.some.inj hc).symm hd, fun hc => by cases hc⟩
      · rw [Function.update_of_ne hj]
    rw [hsame, if_neg hd, Nat.add_zero]

/-- A slot is cleared. -/
theorem card_slots_clear (hi : t.slot i = some e) (h : t'.slot = Function.update t.slot i none) :
    (slots t' d).card + (if d = e then 1 else 0) = (slots t d).card := by
  have hni : t'.slot i = none := by rw [h, Function.update_self]
  have hback : t.slot = Function.update t'.slot i (some e) := by
    rw [h, Function.update_idem, ← hi, Function.update_eq_self]
  rw [card_slots_add hni hback]

theorem total_append : total f (ps ++ [p]) = total f ps + f p := by
  induction ps with
  | nil => exact Nat.add_comm ..
  | cons q ps ih =>
    show f q + total f (ps ++ [p]) = f q + total f ps + f p
    rw [ih, Nat.add_assoc]

theorem total_eraseIdx (h : ps[i]? = some p) : total f (ps.eraseIdx i) + f p = total f ps := by
  induction ps generalizing i with
  | nil => cases h
  | cons q ps ih =>
    cases i with
    | zero =>
      cases h
      exact Nat.add_comm ..
    | succ i =>
      have hi := ih (i := i) h
      show f q + total f (ps.eraseIdx i) + f p = f q + total f ps
      omega

theorem total_modify (h : ps[i]? = some p) :
    total f (ps.modify i g) + f p = total f ps + f (g p) := by
  induction ps generalizing i with
  | nil => cases h
  | cons q ps ih =>
    cases i with
    | zero =>
      have hq : q = p := Option.some.inj h
      show f (g q) + total f ps + f p = f q + total f ps + f (g p)
      rw [hq]
      omega
    | succ i =>
      have hi := ih (i := i) h
      show f q + total f (ps.modify i g) + f p = f q + total f ps + f (g p)
      omega

theorem total_set (h : ps[i]? = some p) : total f (ps.set i q) + f p = total f ps + f q := by
  induction ps generalizing i with
  | nil => cases h
  | cons r ps ih =>
    cases i with
    | zero =>
      have hr : r = p := Option.some.inj h
      show f q + total f ps + f p = f r + total f ps + f q
      rw [hr]
      omega
    | succ i =>
      have hi := ih (i := i) h
      show f r + total f (ps.set i q) + f p = f r + total f ps + f q
      omega

end

/-! ## What holds along a run -/

structure Shared (s : FileSys) : Prop where
  count_le : ∀ d x, s.heap d = some x → (s.count d : Int) ≤ x.refCount
  allocated : ∀ d, 0 < s.count d → s.heap d ≠ none
  clean : ∀ p ∈ s.procs, ∀ i, i + 1 < p.fdt.maxfd → p.fdt.slot i = none

/-- The reference that is put back is not that of a slot in another table. -/
def PutOk (s : FileSys) (t : FdTable) (d : Addr) : Prop :=
  ∀ x, s.heap d = some x →
    (s.count d : Int) < x.refCount ∨ (x.refCount = 1 ∧ ∃ i, t.slot i = some d)

/-- The loop closes no descriptor of the kernel that has another slot. -/
def ClosesOk (s : FileSys) (console : Int) (result : Nat → Int) (maxfd : Nat) : Prop :=
  ∀ n, n + 1 < maxfd → ∀ d, named ⟨s.kernel, s.heap⟩ console n = some d →
    result n < 0 ∨ s.count d ≤ 1

def Keeps (s : FileSys) : FileAct → Prop
  | .put o d => ∀ f, s.files o = some f → PutOk s f.fdt d
  | .execve o console _ _ old =>
    (∀ f d x, s.files o = some f → named f console console = some d → s.heap d = some x →
      (s.count d : Int) < x.refCount) ∧
    ∀ i, i < (console - dfsFdOffset).toNat → old i = none
  | .exit i console result => ∀ p, s.procs[i]? = some p → p.ref = 1 →
    ClosesOk { s with procs := s.procs.eraseIdx i } console result p.fdt.maxfd
  | _ => True

/-! ## One table, with `c` slots in the others -/

structure FShared (c : Addr → Nat) (f : Files) : Prop where
  count_le : ∀ d x, f.heap d = some x → ((c d + (slots f.fdt d).card : Nat) : Int) ≤ x.refCount
  allocated : ∀ d, 0 < c d + (slots f.fdt d).card → f.heap d ≠ none

section

variable {c : Addr → Nat} {f f' : Files} {d : Addr} {x y : DfsFd} {i : Nat} {fdMax : Nat}
  {console fd result : Int} {realloc : Bool} {calloc : Option Addr} {r : Int} {a : Option Addr}

theorem card_pos_of_slot (hi : f.fdt.slot i = some d) : 0 < (slots f.fdt d).card :=
  Finset.card_pos.mpr ⟨i, mem_slots.mpr hi⟩

/-- The structure of a slot has a reference. -/
theorem FShared.live (h : FShared c f) : Live f := by
  intro i d hi
  have hpos := card_pos_of_slot hi
  obtain ⟨x, hx⟩ := Option.ne_none_iff_exists'.mp (h.allocated d (by omega))
  have := h.count_le d x hx
  exact ⟨x, hx, by omega⟩

/-- The count of a structure changes, its slots do not. -/
theorem FShared.setCount (h : FShared c f)
    (hy : ((c d + (slots f.fdt d).card : Nat) : Int) ≤ y.refCount) :
    FShared c { f with heap := Function.update f.heap d (some y) } where
  count_le e z hz := by
    dsimp only at hz ⊢
    by_cases he : e = d
    · rw [he, Function.update_self] at hz
      cases hz
      rw [he]
      exact hy
    · rw [Function.update_of_ne he] at hz
      exact h.count_le e z hz
  allocated e hpos := by
    dsimp only at hpos ⊢
    by_cases he : e = d
    · rw [he, Function.update_self]
      exact fun hc => by cases hc
    · rw [Function.update_of_ne he]
      exact h.allocated e hpos

theorem FShared.get (h : FShared c f) (hg : fdGet f console fd = some (a, f')) : FShared c f' := by
  rcases fdGet_cases hg with ⟨-, rfl⟩ | ⟨d, x, -, -, hx, -, -, rfl⟩
  · exact h
  · refine h.setCount ?_
    have := h.count_le d x hx
    show _ ≤ x.refCount + 1
    omega

theorem FShared.put (h : FShared c f) (hp : fdPut f d = some f')
    (hok : ∀ x, f.heap d = some x → ((c d + (slots f.fdt d).card : Nat) : Int) < x.refCount ∨
      (x.refCount = 1 ∧ ∃ i, f.fdt.slot i = some d)) : FShared c f' := by
  obtain ⟨x, hx, hcases⟩ := fdPut_cases hp
  have hle := h.count_le d x hx
  rcases hcases with ⟨hne, rfl⟩ | ⟨h1, i, hi, rfl⟩ | ⟨h1, hnone, rfl⟩
  · refine h.setCount ?_
    have hlt := (hok x hx).resolve_right fun hc => hne hc.1
    show _ ≤ x.refCount - 1
    omega
  · -- its only slot goes with it
    have hpos := card_pos_of_slot hi
    have hclear : ∀ e, (slots ⟨f.fdt.maxfd, Function.update f.fdt.fds i none⟩ e).card +
        (if e = d then 1 else 0) = (slots f.fdt e).card := fun e =>
      card_slots_clear hi (slot_update (slot_some.mp hi).1)
    refine ⟨fun e z hz => ?_, fun e he => ?_⟩
    · dsimp only at hz ⊢
      have hed : e ≠ d := by
        intro hc
        rw [hc, Function.update_self] at hz
        cases hz
      rw [Function.update_of_ne hed] at hz
      have hc := hclear e
      rw [if_neg hed, Nat.add_zero] at hc
      rw [hc]
      exact h.count_le e z hz
    · dsimp only at he ⊢
      have hc := hclear e
      by_cases hed : e = d
      · rw [if_pos hed, hed] at hc
        rw [hed] at he
        omega
      · rw [if_neg hed, Nat.add_zero] at hc
        rw [hc] at he
        rw [Function.update_of_ne hed]
        exact h.allocated e he
  · refine h.setCount ?_
    have hlt : ((c d + (slots f.fdt d).card : Nat) : Int) < x.refCount :=
      (hok x hx).resolve_right fun hc => by
        obtain ⟨-, i, hi⟩ := hc
        exact hnone i hi
    show _ ≤ (0 : Int)
    omega

theorem FShared.new (h : FShared c f) (hmax : f.fdt.maxfd ≤ fdMax)
    (hfresh : ∀ d, calloc = some d → f.heap d = none)
    (hn : fdNew fdMax f realloc calloc = some (r, f')) : FShared c f' ∧ f'.fdt.maxfd ≤ fdMax := by
  obtain ⟨r', f'', hn', hmax', hcases⟩ :=
    fdNew_spec realloc calloc h.live hmax
  rw [hn] at hn'
  cases hn'
  refine ⟨?_, hmax'⟩
  rcases hcases with ⟨-, hslot, hheap⟩ | ⟨j, b, -, hb, hj, hslot, hheap⟩
  · refine ⟨fun d x hx => ?_, fun d hd => ?_⟩
    · rw [hheap] at hx
      rw [slots_congr hslot]
      exact h.count_le d x hx
    · rw [slots_congr hslot] at hd
      rw [hheap]
      exact h.allocated d hd
  · -- the new structure has no slot yet
    have h0 : c b + (slots f.fdt b).card = 0 := by
      by_contra hne
      exact h.allocated b (by omega) (hfresh b hb)
    refine ⟨fun d x hx => ?_, fun d hd => ?_⟩
    · rw [hheap] at hx
      rw [card_slots_add hj hslot]
      by_cases hdb : d = b
      · rw [hdb, Function.update_self] at hx
        cases hx
        rw [if_pos hdb, hdb]
        show _ ≤ (1 : Int)
        omega
      · rw [Function.update_of_ne hdb] at hx
        rw [if_neg hdb, Nat.add_zero]
        exact h.count_le d x hx
    · rw [card_slots_add hj hslot] at hd
      rw [hheap]
      by_cases hdb : d = b
      · rw [hdb, Function.update_self]
        exact fun hc => by cases hc
      · rw [if_neg hdb, Nat.add_zero] at hd
        rw [Function.update_of_ne hdb]
        exact h.allocated d hd

/-- The table has no slot that it did not have. -/
def Sub (t' t : FdTable) : Prop :=
  t'.maxfd = t.maxfd ∧ ∀ i d, t'.slot i = some d → t.slot i = some d

theorem Sub.refl {t : FdTable} : Sub t t := ⟨rfl, fun _ _ h => h⟩

theorem Sub.trans {t t' t'' : FdTable} (h : Sub t'' t') (h' : Sub t' t) : Sub t'' t :=
  ⟨h.1.trans h'.1, fun i d hi => h'.2 i d (h.2 i d hi)⟩

theorem Sub.named {n : Int} (h : Sub f'.fdt f.fdt) (hn : named f' console n = some d) :
    named f console n = some d := by
  unfold Dfs.named at hn ⊢
  split at hn
  · cases hn
  · next hneg =>
    rw [if_neg hneg]
    exact h.2 _ _ hn

theorem Sub.card_le {t t' : FdTable} (h : Sub t' t) : (slots t' d).card ≤ (slots t d).card :=
  Finset.card_le_card fun i hi => mem_slots.mpr (h.2 i d (mem_slots.mp hi))

theorem sub_get (hg : fdGet f console fd = some (a, f')) : Sub f'.fdt f.fdt := by
  rcases fdGet_cases hg with ⟨-, rfl⟩ | ⟨d, x, -, -, -, -, -, rfl⟩
  · exact .refl
  · exact ⟨rfl, fun _ _ h => h⟩

theorem sub_put (hp : fdPut f d = some f') : Sub f'.fdt f.fdt := by
  obtain ⟨x, -, ⟨-, rfl⟩ | ⟨-, i, hi, rfl⟩ | ⟨-, -, rfl⟩⟩ := fdPut_cases hp
  · exact ⟨rfl, fun _ _ h => h⟩
  · refine ⟨rfl, fun j e hj => ?_⟩
    dsimp only at hj
    rw [slot_update (slot_some.mp hi).1] at hj
    by_cases hji : j = i
    · rw [hji, Function.update_self] at hj
      cases hj
    · rwa [Function.update_of_ne hji] at hj
  · exact ⟨rfl, fun _ _ h => h⟩

theorem sub_close (hc : close f console fd result = some (a, f')) : Sub f'.fdt f.fdt := by
  rcases close_cases hc with ⟨-, hg⟩ | ⟨d, f1, hg, ⟨-, -, hp⟩ | ⟨-, -, x, f2, -, hp1, hp2⟩⟩
  · exact sub_get hg
  · exact (sub_put hp).trans (sub_get hg)
  · have h₁ := sub_put hp1
    have h₂ : Sub f2.fdt f1.fdt := h₁
    exact (sub_put hp2).trans (h₂.trans (sub_get hg))

theorem FShared.close (h : FShared c f)
    (hok : ∀ d, named f console fd = some d → result < 0 ∨ c d + (slots f.fdt d).card ≤ 1)
    (hc : Lwt.close f console fd result = some (a, f')) : FShared c f' := by
  rcases close_cases hc with ⟨-, hg⟩ | ⟨d, f1, hg, hcases⟩
  · exact h.get hg
  · have h₁ := h.get hg
    rcases fdGet_cases hg with ⟨hd, -⟩ | ⟨d', x, hd, hnamed, hx, -, -, hf1⟩
    · cases hd
    · cases hd
      have hle := h.count_le d x hx
      obtain ⟨i, hi⟩ : ∃ i, f.fdt.slot i = some d := by
        unfold named at hnamed
        split at hnamed
        · cases hnamed
        · exact ⟨_, hnamed⟩
      have hpos := card_pos_of_slot hi
      have hx1 : f1.heap d = some { x with refCount := x.refCount + 1 } := by
        rw [hf1]
        exact Function.update_self ..
      have hcard : slots f1.fdt d = slots f.fdt d := by rw [hf1]
      rcases hcases with ⟨-, -, hp⟩ | ⟨hneg, -, y, f2, hy, hp1, hp2⟩
      · refine h₁.put hp fun z hz => .inl ?_
        rw [hx1] at hz
        cases hz
        rw [hcard]
        show _ < x.refCount + 1
        omega
      · have hone := (hok d hnamed).resolve_left hneg
        rw [hx1] at hy
        cases hy
        -- the reference of `fd_get`
        obtain ⟨z, hz, hz2⟩ := fdPut_cases hp1
        dsimp only at hz
        rw [Function.update_self] at hz
        cases hz
        rcases hz2 with ⟨-, hf2⟩ | ⟨h1, -⟩ | ⟨h1, -⟩
        · dsimp only at hf2
          rw [Function.update_idem] at hf2
          have h₂ : FShared c f2 := by
            rw [hf2]
            refine h₁.setCount ?_
            rw [hcard]
            show _ ≤ x.refCount + 1 - 1
            omega
          -- and that of the slot
          refine h₂.put hp2 fun w hw => ?_
          rw [hf2] at hw ⊢
          dsimp only at hw ⊢
          rw [Function.update_self] at hw
          cases hw
          rw [hcard]
          have hslot : f1.fdt.slot i = some d := by
            rw [hf1]
            exact hi
          dsimp only
          by_cases h1 : x.refCount = 1
          · exact .inr ⟨by omega, i, hslot⟩
          · left
            omega
        · dsimp only at h1
          omega
        · dsimp only at h1
          omega

/-- The loop of a process that ends. -/
theorem FShared.closeLoop {res : Nat → Int} {m : Nat} {l : List Addr} (h : FShared c f)
    (hok : ∀ n, n + 1 < m → ∀ d, named f console (n : Nat) = some d → res n < 0 ∨ c d + (slots f.fdt d).card ≤ 1)
    (hc : Lwt.closeLoop console res m f = some (l, f')) : FShared c f' ∧ Sub f'.fdt f.fdt := by
  induction m generalizing f l with
  | zero =>
    cases hc
    exact ⟨h, .refl⟩
  | succ m ih =>
    cases m with
    | zero =>
      cases hc
      exact ⟨h, .refl⟩
    | succ m =>
      unfold Lwt.closeLoop at hc
      obtain ⟨⟨b, f1⟩, hclose, hc⟩ := Option.bind_eq_some_iff.mp hc
      obtain ⟨⟨l', f2⟩, hrest, hc⟩ := Option.map_eq_some_iff.mp hc
      cases hc
      have hsub := sub_close hclose
      have h₁ := h.close (fun d hd => hok m (by omega) d hd) hclose
      obtain ⟨h₂, hsub₂⟩ := ih h₁ (fun n hn d hd =>
        (hok n (by omega) d (hsub.named hd)).imp_right fun hle =>
          Nat.le_trans (Nat.add_le_add_left hsub.card_le _) hle) hrest
      exact ⟨h₂, hsub₂.trans hsub⟩

end

/-! ## The steps -/

/-- The tables are not larger than they may be. -/
def Bounded (fdMax : Nat) (s : FileSys) : Prop :=
  s.kernel.maxfd ≤ fdMax ∧ ∀ p ∈ s.procs, p.dfsFdt.maxfd ≤ fdMax

section

variable {s s' : FileSys} {o : Option Nat} {f f' : Files} {d : Addr} {c : Addr → Nat} {i : Nat}
  {p : Proc} {fdMax : Nat} {act : FileAct}

/-- The slots in the table of a thread, and those in the others. -/
theorem count_split (hf : s.files o = some f) : ∃ c : Addr → Nat, f.heap = s.heap ∧
    (∀ d, s.count d = c d + (slots f.fdt d).card) ∧
    ∀ f' d, (s.setFiles f' o).count d = c d + (slots f'.fdt d).card := by
  cases o with
  | none =>
    cases hf
    exact ⟨fun d => total (Proc.count d) s.procs, rfl, fun d => Nat.add_comm _ _,
      fun f' d => Nat.add_comm _ _⟩
  | some i =>
    obtain ⟨p, hp, hf⟩ := Option.map_eq_some_iff.mp hf
    cases hf
    have hmod : ∀ f' d, total (Proc.count d) (s.procs.modify i fun p => { p with dfsFdt := f' }) +
        (slots p.dfsFdt d).card = total (Proc.count d) s.procs + (slots f' d).card := by
      intro f' d
      have hm := total_modify (f := Proc.count d) (g := fun p => { p with dfsFdt := f' }) hp
      have h1 : Proc.count d p = (slots p.fdt d).card + (slots p.dfsFdt d).card := rfl
      have h2 : Proc.count d { p with dfsFdt := f' } = (slots p.fdt d).card + (slots f' d).card := rfl
      omega
    have hle : ∀ d, (slots p.dfsFdt d).card ≤ total (Proc.count d) s.procs := by
      intro d
      have := hmod ⟨0, fun _ => none⟩ d
      have h0 : (slots ⟨0, fun _ => none⟩ d).card = 0 := rfl
      have he := total_eraseIdx (f := Proc.count d) hp
      have h1 : Proc.count d p = (slots p.fdt d).card + (slots p.dfsFdt d).card := rfl
      omega
    refine ⟨fun d => (slots s.kernel d).card + total (Proc.count d) s.procs -
      (slots p.dfsFdt d).card, rfl, fun d => ?_, fun f' d => ?_⟩
    · have := hle d
      show (slots s.kernel d).card + total (Proc.count d) s.procs = _
      dsimp only
      omega
    · have := hle d
      have := hmod f'.fdt d
      show (slots s.kernel d).card + total (Proc.count d) (s.procs.modify i _) = _
      dsimp only
      omega

theorem Shared.fshared (h : Shared s) (hh : f.heap = s.heap)
    (hc : ∀ d, s.count d = c d + (slots f.fdt d).card) : FShared c f where
  count_le d x hx := by
    rw [← hc]
    exact h.count_le d x (hh ▸ hx)
  allocated d hd := by
    rw [hh]
    exact h.allocated d (by rwa [hc])

theorem heap_setFiles : (s.setFiles f o).heap = f.heap := by
  cases o <;> rfl

/-- What the processes got from `lwt_execve` stays. -/
theorem mem_setFiles (hp : p ∈ (s.setFiles f o).procs) : ∃ q ∈ s.procs, p.fdt = q.fdt ∧
    (p.dfsFdt = q.dfsFdt ∨ p.dfsFdt = f.fdt) := by
  cases o with
  | none => exact ⟨p, hp, rfl, .inl rfl⟩
  | some i =>
    have hp' : p ∈ s.procs.modify i fun p => { p with dfsFdt := f.fdt } := hp
    obtain ⟨j, hj⟩ := List.mem_iff_getElem?.mp hp'
    rw [List.getElem?_modify] at hj
    obtain ⟨q, hq, hqp⟩ := Option.map_eq_some_iff.mp hj
    refine ⟨q, List.mem_of_getElem? hq, ?_⟩
    split at hqp
    · rw [← hqp]
      exact ⟨rfl, .inr rfl⟩
    · rw [← hqp]
      exact ⟨rfl, .inl rfl⟩

theorem Shared.setFiles (h : Shared s) (hc : ∀ d, (s.setFiles f o).count d = c d + (slots f.fdt d).card)
    (hf : FShared c f) : Shared (s.setFiles f o) where
  count_le d x hx := by
    rw [heap_setFiles] at hx
    rw [hc]
    exact hf.count_le d x hx
  allocated d hd := by
    rw [hc] at hd
    rw [heap_setFiles]
    exact hf.allocated d hd
  clean p hp := by
    obtain ⟨q, hq, hpq, -⟩ := mem_setFiles hp
    rw [hpq]
    exact h.clean q hq

theorem Bounded.files (h : Bounded fdMax s) (hf : s.files o = some f) : f.fdt.maxfd ≤ fdMax := by
  cases o with
  | none =>
    cases hf
    exact h.1
  | some i =>
    obtain ⟨p, hp, hf⟩ := Option.map_eq_some_iff.mp hf
    cases hf
    exact h.2 p (List.mem_of_getElem? hp)

theorem Bounded.setFiles (h : Bounded fdMax s) (hf : f.fdt.maxfd ≤ fdMax) :
    Bounded fdMax (s.setFiles f o) := by
  refine ⟨?_, fun p hp => ?_⟩
  · cases o with
    | none => exact hf
    | some i => exact h.1
  · obtain ⟨q, hq, -, hd | hd⟩ := mem_setFiles hp
    · rw [hd]
      exact h.2 q hq
    · rw [hd]
      exact hf

/-- A process goes. -/
theorem Shared.eraseIdx (h : Shared s) (hp : s.procs[i]? = some p) :
    Shared { s with procs := s.procs.eraseIdx i } := by
  have hle : ∀ d, FileSys.count { s with procs := s.procs.eraseIdx i } d ≤ s.count d := by
    intro d
    have he := total_eraseIdx (f := Proc.count d) hp
    show (slots s.kernel d).card + total (Proc.count d) (s.procs.eraseIdx i) ≤
      (slots s.kernel d).card + total (Proc.count d) s.procs
    omega
  refine ⟨fun d x hx => ?_, fun d hd => ?_, fun q hq => ?_⟩
  · have := hle d
    have := h.count_le d x hx
    omega
  · exact h.allocated d (Nat.lt_of_lt_of_le hd (hle d))
  · exact h.clean q (List.mem_of_mem_eraseIdx hq)

/-- A process has more threads, or less. -/
theorem Shared.setRef {r : Int} (h : Shared s) (hp : s.procs[i]? = some p) :
    Shared { s with procs := s.procs.set i { p with ref := r } } := by
  have hsame : ∀ d, FileSys.count { s with procs := s.procs.set i { p with ref := r } } d =
      s.count d := by
    intro d
    have hset := total_set (f := Proc.count d) (q := { p with ref := r }) hp
    have hq : Proc.count d { p with ref := r } = Proc.count d p := rfl
    show (slots s.kernel d).card + total (Proc.count d) (s.procs.set i { p with ref := r }) =
      (slots s.kernel d).card + total (Proc.count d) s.procs
    omega
  refine ⟨fun d x hx => ?_, fun d hd => ?_, fun q hq => ?_⟩
  · rw [hsame]
    exact h.count_le d x hx
  · rw [hsame] at hd
    exact h.allocated d hd
  · rcases List.mem_or_eq_of_mem_set hq with hq | rfl
    · exact h.clean q hq
    · exact h.clean p (List.mem_of_getElem? hp)

theorem Bounded.setRef {r : Int} (h : Bounded fdMax s) (hp : s.procs[i]? = some p) :
    Bounded fdMax { s with procs := s.procs.set i { p with ref := r } } := by
  refine ⟨h.1, fun q hq => ?_⟩
  rcases List.mem_or_eq_of_mem_set hq with hq | rfl
  · exact h.2 q hq
  · exact h.2 p (List.mem_of_getElem? hp)

theorem total_count_append {q : Proc} :
    FileSys.count { s with procs := s.procs ++ [q] } d = s.count d + Proc.count d q := by
  show (slots s.kernel d).card + total (Proc.count d) (s.procs ++ [q]) = _
  rw [total_append, ← Nat.add_assoc]
  rfl

/-- The console in the table of a new process. -/
theorem Shared.execve {q : Proc} {x : DfsFd} {n : Nat} {old : Nat → Option Addr} (h : Shared s)
    (hx : s.heap d = some x) (hlt : (s.count d : Int) < x.refCount) (hold : ∀ i, i < n → old i = none)
    (hq : q.fdt = ⟨n + 1, Function.update old n (some d)⟩) (hq' : q.dfsFdt = ⟨0, fun _ => none⟩) :
    Shared { s with procs := s.procs ++ [q] } := by
  have hslot : ∀ i e, q.fdt.slot i = some e → i = n ∧ e = d := by
    intro i e hi
    rw [hq] at hi
    obtain ⟨hin, he⟩ := slot_some.mp hi
    have hin' : i < n + 1 := hin
    by_cases hi : i = n
    · rw [hi] at he
      have he' : Function.update old n (some d) n = some e := he
      rw [Function.update_self] at he'
      exact ⟨hi, (Option.some.inj he').symm⟩
    · have he' : Function.update old n (some d) i = some e := he
      rw [Function.update_of_ne hi, hold i (by omega)] at he'
      cases he'
  have hone : ∀ e, Proc.count e q ≤ 1 := by
    intro e
    have h0 : (slots q.dfsFdt e).card = 0 := by
      rw [hq']
      rfl
    have h1 : (slots q.fdt e).card ≤ 1 := Finset.card_le_one.mpr fun i hi j hj => by
      rw [(hslot i e (mem_slots.mp hi)).1, (hslot j e (mem_slots.mp hj)).1]
    show (slots q.fdt e).card + (slots q.dfsFdt e).card ≤ 1
    omega
  have hother : ∀ e, e ≠ d → Proc.count e q = 0 := by
    intro e he
    have h0 : slots q.dfsFdt e = ∅ := by
      rw [hq']
      rfl
    have h1 : slots q.fdt e = ∅ := Finset.eq_empty_of_forall_notMem fun i hi =>
      he (hslot i e (mem_slots.mp hi)).2
    show (slots q.fdt e).card + (slots q.dfsFdt e).card = 0
    rw [h0, h1]
    rfl
  refine ⟨fun e y hy => ?_, fun e he => ?_, fun r hr => ?_⟩
  · rw [total_count_append]
    by_cases hed : e = d
    · have hy' : s.heap e = some y := hy
      rw [hed, hx] at hy'
      cases hy'
      have := hone d
      rw [hed]
      omega
    · rw [hother e hed, Nat.add_zero]
      exact h.count_le e y hy
  · rw [total_count_append] at he
    by_cases hed : e = d
    · show s.heap e ≠ none
      rw [hed, hx]
      exact fun hc => by cases hc
    · rw [hother e hed, Nat.add_zero] at he
      exact h.allocated e he
  · rcases List.mem_append.mp hr with hr | hr
    · exact h.clean r hr
    · intro i hi
      rw [List.mem_singleton.mp hr] at hi ⊢
      cases hs : q.fdt.slot i with
      | none => rfl
      | some e =>
        have hn := (hslot i e hs).1
        rw [hq] at hi
        have hi' : i + 1 < n + 1 := hi
        omega

/-- A step of a run along `Keeps`. -/
theorem Shared.step (h : Shared s) (hb : Bounded fdMax s) (hk : Keeps s act)
    (hs : fileStep fdMax s act = some s') : Shared s' ∧ Bounded fdMax s' := by
  cases act with
  | new o realloc calloc =>
    have hs' : (if calloc.all fun d => (s.heap d).isNone then
      (s.files o).bind fun f => (fdNew fdMax f realloc calloc).map fun r => s.setFiles r.2 o
      else none) = some s' := hs
    split at hs'
    · next hfresh =>
      obtain ⟨f, hf, hs'⟩ := Option.bind_eq_some_iff.mp hs'
      obtain ⟨⟨r, f'⟩, hn, hs'⟩ := Option.map_eq_some_iff.mp hs'
      obtain ⟨c, hh, hc, hc'⟩ := count_split hf
      obtain ⟨hf', hmax⟩ := (h.fshared hh hc).new (hb.files hf) (fun d hd => by
        rw [hd] at hfresh
        rw [hh]
        exact Option.isNone_iff_eq_none.mp hfresh) hn
      rw [← hs']
      exact ⟨h.setFiles (hc' f') hf', hb.setFiles hmax⟩
    · cases hs'
  | get o console fd =>
    obtain ⟨f, hf, hs'⟩ := Option.bind_eq_some_iff.mp hs
    obtain ⟨⟨r, f'⟩, hg, hs'⟩ := Option.map_eq_some_iff.mp hs'
    obtain ⟨c, hh, hc, hc'⟩ := count_split hf
    rw [← hs']
    refine ⟨h.setFiles (hc' f') ((h.fshared hh hc).get hg), hb.setFiles ?_⟩
    exact (sub_get hg).1.trans_le (hb.files hf)
  | put o d =>
    obtain ⟨f, hf, hs'⟩ := Option.bind_eq_some_iff.mp hs
    obtain ⟨f', hp, hs'⟩ := Option.map_eq_some_iff.mp hs'
    obtain ⟨c, hh, hc, hc'⟩ := count_split hf
    rw [← hs']
    refine ⟨h.setFiles (hc' f') ((h.fshared hh hc).put hp fun x hx => ?_), hb.setFiles ?_⟩
    · rw [hh] at hx
      rw [← hc]
      exact hk f hf x hx
    · exact (sub_put hp).1.trans_le (hb.files hf)
  | execve o console b fds old =>
    obtain ⟨hk, hold⟩ := hk
    have hs0 : execveFdt s o console b fds old = some s' := by
      have hs1 : (if _ then execveFdt s o console b fds old else none) = some s' := hs
      split at hs1
      · exact hs1
      · cases hs1
    obtain ⟨f, hf, hs'⟩ := Option.bind_eq_some_iff.mp hs0
    obtain ⟨⟨r, f1⟩, hg, hs'⟩ := Option.bind_eq_some_iff.mp hs'
    obtain ⟨d, hr, hs'⟩ := Option.bind_eq_some_iff.mp hs'
    obtain ⟨f2, hp, hs'⟩ := Option.bind_eq_some_iff.mp hs'
    obtain ⟨a, -, hs'⟩ := Option.bind_eq_some_iff.mp hs'
    obtain ⟨c, hh, hc, hc'⟩ := count_split hf
    have hf1 := (h.fshared hh hc).get hg
    rcases fdGet_cases hg with ⟨hnone, -⟩ | ⟨d', x, hd, hnamed, hx, -, -, hf₁'⟩
    · rw [hnone] at hr
      cases hr
    · rw [hd] at hr
      cases hr
      have hlt := hk f d x hf hnamed (hh ▸ hx)
      -- the count is as before
      have hput : ∀ y, f1.heap d = some y → (c d + (slots f1.fdt d).card : Int) < y.refCount := by
        intro y hy
        rw [hf₁'] at hy ⊢
        dsimp only at hy ⊢
        rw [Function.update_self] at hy
        cases hy
        have hcd := hc d
        dsimp only
        omega
      have hf2 := hf1.put hp fun y hy => .inl (by
        have := hput y hy
        omega)
      have hx2 : ∃ x', f2.heap d = some x' ∧ x'.refCount = x.refCount := by
        obtain ⟨y, hy, hcases⟩ := fdPut_cases hp
        have hlt' := hput y hy
        rw [hf₁'] at hy
        dsimp only at hy
        rw [Function.update_self] at hy
        cases hy
        dsimp only at hlt'
        rcases hcases with ⟨-, rfl⟩ | ⟨h1, i, hi, -⟩ | ⟨h1, -, rfl⟩
        · exact ⟨_, Function.update_self .., by dsimp only; omega⟩
        · have := card_pos_of_slot hi
          dsimp only at h1
          omega
        · refine ⟨_, Function.update_self .., ?_⟩
          dsimp only at h1 ⊢
          omega
      obtain ⟨x', hx', hrx⟩ := hx2
      have hsub : Sub f2.fdt f.fdt := (sub_put hp).trans (sub_get hg)
      have hs2 := h.setFiles (hc' f2) hf2
      have hcount : ((s.setFiles f2 o).count d : Int) < x'.refCount := by
        have hle := hsub.card_le (d := d)
        have h₂ := hc' f2 d
        have hcd := hc d
        omega
      cases hs'
      refine ⟨hs2.execve (heap_setFiles ▸ hx') hcount hold rfl rfl, ?_⟩
      have hb2 : Bounded fdMax (s.setFiles f2 o) := hb.setFiles (hsub.1.trans_le (hb.files hf))
      refine ⟨hb2.1, fun q hq => ?_⟩
      rcases List.mem_append.mp hq with hq | hq
      · exact hb2.2 q hq
      · rw [List.mem_singleton.mp hq]
        exact Nat.zero_le _
  | startup i =>
    obtain ⟨p, hp, hs'⟩ := Option.map_eq_some_iff.mp hs
    rw [← hs']
    exact ⟨h.setRef hp, hb.setRef hp⟩
  | exit i console result =>
    obtain ⟨p, hp, hs'⟩ := Option.bind_eq_some_iff.mp hs
    split at hs'
    · split at hs'
      · next h0 =>
        obtain ⟨⟨l, f'⟩, hloop, hs'⟩ := Option.map_eq_some_iff.mp hs'
        have he := h.eraseIdx hp
        have hok := hk p hp (by omega)
        have hf : FileSys.files { s with procs := s.procs.eraseIdx i } none =
            some ⟨s.kernel, s.heap⟩ := rfl
        obtain ⟨c, hh, hc, hc'⟩ := count_split hf
        obtain ⟨hf', hsub⟩ := (he.fshared hh hc).closeLoop (fun n hn d hd => by
          rw [← hc]
          exact hok n hn d hd) hloop
        have hset := he.setFiles (hc' f') hf'
        rw [← hs']
        refine ⟨⟨hset.count_le, hset.allocated, hset.clean⟩, ?_, fun q hq => ?_⟩
        · exact hsub.1.trans_le hb.1
        · exact hb.2 q (List.mem_of_mem_eraseIdx hq)
      · cases hs'
        exact ⟨h.setRef hp, hb.setRef hp⟩
    · cases hs'
      exact ⟨h, hb⟩

end

theorem shared_empty : Shared .empty where
  count_le d x hx := by cases hx
  allocated d hd := by
    have h0 : FileSys.empty.count d = 0 := rfl
    omega
  clean p hp := by cases hp

/-- Along a run that keeps to it, no structure has more slots than references. -/
theorem shared_of_keeps {fdMax : Nat} {as : List FileAct} {s : FileSys}
    (hk : Along (fileStep fdMax) Keeps .empty as) (hx : exec (fileStep fdMax) .empty as = some s) :
    Shared s :=
  (hk.inv (I := fun s => Shared s ∧ Bounded fdMax s)
    (fun _ _ _ h hk hs => h.1.step h.2 hk hs) hx
    ⟨shared_empty, Nat.zero_le _, fun p hp => by cases hp⟩).1

/-- The console is opened and taken; a process is made, and ends. -/
def consoleTaken : List FileAct :=
  [.new none true (some 100), .get none 3 3, .execve none 3 ⟨1, 2, some 3, 4⟩ (some 200) fun _ => none,
    .exit 0 3 fun _ => 0]

theorem keeps_consoleTaken : Along (fileStep 16) Keeps .empty consoleTaken := by
  refine ⟨trivial, trivial, ⟨?_, fun _ _ => rfl⟩, ?_, trivial⟩
  · intro f d x hf hd hx
    cases hf
    have h100 : d = 100 := (Option.some.inj hd).symm
    subst h100
    cases hx
    decide
  · intro p hp _
    cases hp
    intro n hn
    exact absurd hn (by show ¬ n + 1 < 1; omega)

theorem shared_of_keeps_console :
    ∃ s, exec (fileStep 16) .empty consoleTaken = some s ∧ Shared s := by
  have h : (exec (fileStep 16) .empty consoleTaken).isSome := by decide
  obtain ⟨s, hs⟩ := Option.isSome_iff_exists.mp h
  exact ⟨s, hs, shared_of_keeps keeps_consoleTaken hs⟩

/-- The console is opened, and a process is made: two slots, one reference. -/
theorem not_shared_execve : ∃ s, exec (fileStep 16) .empty [.new none true (some 100),
      .execve none 3 ⟨1, 2, some 3, 4⟩ (some 200) fun _ => none] = some s ∧ ¬ Shared s := by
  have h : ((exec (fileStep 16) .empty [.new none true (some 100),
      .execve none 3 ⟨1, 2, some 3, 4⟩ (some 200) fun _ => none]).map fun s =>
        (s.count 100, (s.heap 100).map DfsFd.refCount)) = some (2, some 1) := by decide
  obtain ⟨s, hs, hc⟩ := Option.map_eq_some_iff.mp h
  refine ⟨s, hs, fun hsh => ?_⟩
  obtain ⟨hc, hr⟩ := Prod.mk.inj hc
  obtain ⟨x, hx, hr⟩ := Option.map_eq_some_iff.mp hr
  have := hsh.count_le 100 x hx
  omega

end Tudu.Lwt
