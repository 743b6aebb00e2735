import TuduOS.Lib.Lts
import TuduOS.Lib.Runs

/-!
# The page allocator of the slab heap (`slab.c`)

A page is its number, the address divided by `RT_MM_PAGE_SIZE`; number 0 is `NULL`. The head of a
free run, `struct rt_page_head`, is in its first page: who has a page may overwrite it (`write`).

* `prev` of the loops points to `rt_page_list` (`none`) or to the `next` of a page.
* A loop is given a number of rounds, and has no result if it takes more; an `RT_ASSERT` that fails
  has none either.
* The heap's semaphore makes each call one step. The region ends below the last page of the address
  space, as that of `rt_system_heap_init` does: pointers do not wrap.
-/

namespace Tudu.Pages

open Lts Runs

structure PageHeap where
  next : Nat → Option Nat
  page : Nat → Nat
  /-- `rt_page_list` -/
  list : Option Nat

namespace PageHeap

def setNext (s : PageHeap) (b : Nat) (v : Option Nat) : PageHeap :=
  { s with next := Function.update s.next b v }

def setPage (s : PageHeap) (b n : Nat) : PageHeap :=
  { s with page := Function.update s.page b n }

/-- `*prev` -/
def deref (s : PageHeap) : Option Nat → Option Nat
  | none => s.list
  | some q => s.next q

/-- `*prev = v` -/
def store (s : PageHeap) (prev v : Option Nat) : PageHeap :=
  match prev with
  | none => { s with list := v }
  | some q => s.setNext q v

/-- The loop of `rt_page_alloc`. -/
def allocLoop (npages : Nat) : Nat → PageHeap → Option Nat → Option (Option Nat × PageHeap)
  | 0, _, _ => none
  | k + 1, s, prev =>
    match s.deref prev with
    | none => some (none, s)
    | some b =>
      if s.page b > npages then
        let n := b + npages
        some (some b,
          ((s.setNext n (s.next b)).setPage n (s.page b - npages)).store prev (some n))
      else if s.page b = npages then some (some b, s.store prev (s.next b))
      else allocLoop npages k s (some b)

def rtPageAlloc (rounds : Nat) (s : PageHeap) (npages : Nat) : Option (Option Nat × PageHeap) :=
  if npages = 0 then some (none, s) else allocLoop npages rounds s none

/-- The end of `b` is the start of the run that is freed. -/
def mergeInto (s : PageHeap) (b npages : Nat) : PageHeap :=
  let s := s.setPage b (s.page b + npages)
  let c := b + s.page b
  if s.next b = some c then (s.setPage b (s.page b + s.page c)).setNext b (s.next c) else s

/-- The loop of `rt_page_free`. -/
def freeLoop (n npages : Nat) : Nat → PageHeap → Option Nat → Option PageHeap
  | 0, _, _ => none
  | k + 1, s, prev =>
    match s.deref prev with
    | none => some (((s.setPage n npages).setNext n none).store prev (some n))
    | some b =>
      if s.page b > 0 ∧ (b > n ∨ b + s.page b ≤ n) then
        if b + s.page b = n then some (s.mergeInto b npages)
        else if b = n + npages then
          some (((s.setPage n (s.page b + npages)).setNext n (s.next b)).store prev (some n))
        else if b > n + npages then
          some (((s.setPage n npages).setNext n (some b)).store prev (some n))
        else freeLoop n npages k s (some b)
      else none

def rtPageFree (rounds : Nat) (s : PageHeap) (addr npages : Nat) : Option PageHeap :=
  if addr = 0 ∨ npages = 0 then none else freeLoop addr npages rounds s none

def rtPageInit (rounds : Nat) (s : PageHeap) (addr npages : Nat) : Option PageHeap :=
  if addr = 0 ∨ npages = 0 then none else { s with list := none }.rtPageFree rounds addr npages

end PageHeap

open PageHeap

/-- The heap, and the runs that are handed out. -/
structure State where
  heap : PageHeap
  live : List Run

inductive Act where
  | alloc (npages : Nat)
  /-- The pages go back, from their first one on. -/
  | free (addr npages : Nat)
  /-- The owner of a page overwrites it. -/
  | write (addr : Nat) (next : Option Nat) (page : Nat)

def step (rounds : Nat) (s : State) : Act → Option State
  | .alloc npages => (s.heap.rtPageAlloc rounds npages).map fun r =>
    match r.1 with
    | none => ⟨r.2, s.live⟩
    | some a => ⟨r.2, (a, npages) :: s.live⟩
  | .free addr npages =>
    if (addr, npages) ∈ s.live then
      (s.heap.rtPageFree rounds addr npages).map fun h => ⟨h, s.live.erase (addr, npages)⟩
    else none
  | .write addr next page =>
    if ∃ r ∈ s.live, r.1 ≤ addr ∧ addr < r.1 + r.2 then
      some ⟨(s.heap.setNext addr next).setPage addr page, s.live⟩
    else none

/-! ## The list in the pages -/

/-- From the pointer on, the heads lead through the runs to the end. -/
def Leads (next : Nat → Option Nat) (page : Nat → Nat) : Option Nat → List Run → Prop
  | p, [] => p = none
  | p, r :: l => p = some r.1 ∧ page r.1 = r.2 ∧ Leads next page (next r.1) l

variable {next next' : Nat → Option Nat} {page page' : Nat → Nat} {p prev : Option Nat}
  {l l' : List Run} {s s' : PageHeap} {a b n k npages rounds : Nat} {r : Run}

theorem Leads.congr (h : Leads next page p l) (hn : ∀ r ∈ l, next' r.1 = next r.1)
    (hp : ∀ r ∈ l, page' r.1 = page r.1) : Leads next' page' p l := by
  induction l generalizing p with
  | nil => exact h
  | cons r l ih =>
    obtain ⟨h1, h2, h3⟩ := h
    refine ⟨h1, ?_, ?_⟩
    · rw [hp r List.mem_cons_self]
      exact h2
    · rw [hn r List.mem_cons_self]
      exact ih h3 (fun s hs => hn s (List.mem_cons_of_mem _ hs))
        fun s hs => hp s (List.mem_cons_of_mem _ hs)

/-- What `prev` points to lies below `x`. -/
def Below (prev : Option Nat) (x : Nat) : Prop := ∀ q, prev = some q → q < x

/-- The heap below `x` is as before, but for what `prev` points to. -/
structure Kept (s s' : PageHeap) (prev : Option Nat) (x : Nat) : Prop where
  next : ∀ q, q < x → prev ≠ some q → s'.next q = s.next q
  page : ∀ q, q < x → s'.page q = s.page q
  list : prev ≠ none → s'.list = s.list

section Store

variable {v : Option Nat} {q x : Nat}

@[simp] theorem store_page : (s.store prev v).page = s.page := by
  cases prev <;> rfl

@[simp] theorem deref_store : (s.store prev v).deref prev = v := by
  cases prev with
  | none => rfl
  | some q => exact Function.update_self ..

theorem store_next (h : prev ≠ some q) : (s.store prev v).next q = s.next q := by
  cases prev with
  | none => rfl
  | some q' => exact Function.update_of_ne (fun he => h (congrArg some he.symm)) ..

theorem store_list (h : prev ≠ none) : (s.store prev v).list = s.list := by
  cases prev with
  | none => exact absurd rfl h
  | some q => rfl

theorem Below.ne (h : Below prev x) (hq : x ≤ q) : prev ≠ some q := fun he =>
  absurd (h q he) (Nat.not_lt.mpr hq)

/-- What happens behind `b` leaves what comes before it. -/
theorem Kept.deref (h : Kept s s' (some b) (b + 1)) (hp : Below prev b) :
    s'.deref prev = s.deref prev := by
  cases prev with
  | none => exact h.list (Option.some_ne_none b)
  | some q =>
    have hq := hp q rfl
    exact h.next q (Nat.lt_succ_of_lt hq) fun he => absurd (Option.some.inj he) (Nat.ne_of_gt hq)

theorem Kept.pass (h : Kept s s' (some b) (b + 1)) (hx : x ≤ b) : Kept s s' prev x where
  next q hq _ := h.next q (by omega) fun he => by
    have := Option.some.inj he
    omega
  page q hq := h.page q (by omega)
  list _ := h.list (Option.some_ne_none b)

end Store

theorem allocLoop_spec (hn : 0 < npages) (hl : Leads s.next s.page (s.deref prev) l)
    (hf : Free l) (hb : ∀ r ∈ l, Below prev r.1) (hk : l.length < k) :
    (take npages l = none ∧ allocLoop npages k s prev = some (none, s)) ∨
    ∃ a l' s', take npages l = some (a, l') ∧ allocLoop npages k s prev = some (some a, s') ∧
      Leads s'.next s'.page (s'.deref prev) l' ∧
      ∀ x, (∀ r ∈ l, x ≤ r.1) → Kept s s' prev x := by
  induction l generalizing k prev with
  | nil =>
    obtain ⟨k, rfl⟩ := Nat.exists_eq_succ_of_ne_zero (Nat.ne_of_gt hk)
    have hd : s.deref prev = none := hl
    exact .inl ⟨rfl, by rw [allocLoop, hd]⟩
  | cons r l ih =>
    obtain ⟨b, m⟩ := r
    obtain ⟨k, rfl⟩ := Nat.exists_eq_succ_of_ne_zero (Nat.ne_of_gt (Nat.zero_lt_of_lt hk))
    obtain ⟨hd, hm, hl⟩ := hl
    obtain ⟨hpos, hg, hf⟩ := free_cons.mp hf
    have hpb : Below prev b := hb (b, m) List.mem_cons_self
    simp only at hd hm hpos hg hl
    rw [allocLoop, hd, take]
    simp only [hm]
    by_cases hgt : m > npages
    · rw [if_pos hgt, if_pos hgt]
      have hne : prev ≠ some (b + npages) := hpb.ne (by omega)
      refine .inr ⟨b, _, _, rfl, rfl, ⟨deref_store, ?_, ?_⟩, fun x hx => ?_⟩
      · rw [store_page]
        exact Function.update_self ..
      · have hnext : ∀ r ∈ l, r.1 ≠ b + npages ∧ prev ≠ some r.1 := fun r hr => by
          have := hg r hr
          exact ⟨by omega, hpb.ne (by omega)⟩
        rw [store_next hne]
        simp only [setNext, setPage, Function.update_self]
        refine hl.congr (fun r hr => ?_) fun r hr => ?_
        · rw [store_next (hnext r hr).2]
          exact Function.update_of_ne (hnext r hr).1 ..
        · rw [store_page]
          exact Function.update_of_ne (hnext r hr).1 ..
      · have hxb := hx (b, m) List.mem_cons_self
        simp only at hxb
        refine ⟨fun q hq hpq => ?_, fun q hq => ?_, fun hpn => ?_⟩
        · rw [store_next hpq]
          exact Function.update_of_ne (by omega) ..
        · rw [store_page]
          exact Function.update_of_ne (by omega) ..
        · rw [store_list hpn]
          rfl
    · rw [if_neg hgt, if_neg hgt]
      by_cases heq : m = npages
      · rw [if_pos heq, if_pos heq]
        refine .inr ⟨b, _, _, rfl, rfl, ?_, fun x hx => ?_⟩
        · rw [deref_store]
          refine hl.congr (fun r hr => store_next ?_) fun r hr => by rw [store_page]
          have := hg r hr
          exact hpb.ne (by omega)
        · exact ⟨fun q hq hpq => store_next hpq, fun q hq => by rw [store_page],
            fun hpn => store_list hpn⟩
      · rw [if_neg heq, if_neg heq]
        have hlow : ∀ r ∈ l, b + 1 ≤ r.1 := fun r hr => by
          have := hg r hr
          omega
        have hbl : ∀ r ∈ l, Below (some b) r.1 := fun r hr q hq => by
          have := hlow r hr
          have := Option.some.inj hq
          omega
        have hl' : Leads s.next s.page (s.deref (some b)) l := hl
        rcases ih hl' hf hbl (Nat.lt_of_succ_lt_succ hk) with
          ⟨ht, ha⟩ | ⟨a, l', s', ht, ha, hl', hkept⟩
        · exact .inl ⟨by rw [ht]; rfl, ha⟩
        · have hkb := hkept (b + 1) hlow
          refine .inr ⟨a, (b, m) :: l', s', by rw [ht]; rfl, ha, ⟨?_, ?_, hl'⟩, fun x hx => ?_⟩
          · rw [hkb.deref hpb]
            exact hd
          · rw [hkb.page b (Nat.lt_succ_self b)]
            exact hm
          · exact hkb.pass (hx (b, m) List.mem_cons_self)

/-- The run at `b` becomes longer, and one with the next one if that follows at once. -/
theorem mergeInto_leads (hl : Leads s.next s.page (s.next b) l) (hb : ∀ r ∈ l, b < r.1) :
    Leads (s.mergeInto b n).next (s.mergeInto b n).page (some b) (join b (s.page b + n) l) := by
  simp only [mergeInto, setPage, Function.update_self]
  cases l with
  | nil =>
    have hnb : s.next b = none := hl
    rw [hnb, if_neg (Option.some_ne_none _).symm]
    exact ⟨rfl, Function.update_self .., hnb⟩
  | cons r l =>
    obtain ⟨c, m⟩ := r
    obtain ⟨hnb, hm, hl⟩ := hl
    have hbc := hb (c, m) List.mem_cons_self
    have hbl : ∀ r ∈ l, b < r.1 := fun r hr => hb r (List.mem_cons_of_mem _ hr)
    simp only at hnb hm hl hbc
    rw [join]
    by_cases he : b + (s.page b + n) = c
    · subst he
      rw [if_pos hnb, if_pos rfl]
      refine ⟨rfl, ?_, ?_⟩
      · simp only [setNext, Function.update_self]
        rw [Function.update_of_ne (by omega), hm]
      · simp only [setNext, Function.update_self]
        refine hl.congr (fun r hr => ?_) fun r hr => ?_
        · exact Function.update_of_ne (Nat.ne_of_gt (hbl r hr)) ..
        · have hne := Nat.ne_of_gt (hbl r hr)
          rw [Function.update_of_ne hne, Function.update_of_ne hne]
    · have hnc : s.next b ≠ some (b + (s.page b + n)) := by
        rw [hnb]
        exact fun h => he (Option.some.inj h).symm
      rw [if_neg hnc, if_neg he]
      refine ⟨rfl, Function.update_self .., hnb, ?_, ?_⟩
      · rw [← hm]
        exact Function.update_of_ne (Nat.ne_of_gt hbc) ..
      · exact hl.congr (fun r hr => rfl) fun r hr =>
          Function.update_of_ne (Nat.ne_of_gt (hbl r hr)) ..

theorem mergeInto_kept {x : Nat} (hx : x ≤ b) : Kept s (s.mergeInto b n) prev x := by
  simp only [mergeInto]
  split
  · refine ⟨fun q hq _ => Function.update_of_ne (by omega) .., fun q hq => ?_, fun _ => rfl⟩
    have hne : q ≠ b := by omega
    simp only [setNext, setPage]
    rw [Function.update_of_ne hne, Function.update_of_ne hne]
  · exact ⟨fun q _ _ => rfl, fun q hq => Function.update_of_ne (by omega) .., fun _ => rfl⟩

theorem mergeInto_deref (hp : Below prev b) : (s.mergeInto b n).deref prev = s.deref prev := by
  cases prev with
  | none =>
    have h : Kept s (s.mergeInto b n) (some b) b := mergeInto_kept (Nat.le_refl b)
    exact h.list (Option.some_ne_none b)
  | some q =>
    have h : Kept s (s.mergeInto b n) none b := mergeInto_kept (Nat.le_refl b)
    exact h.next q (hp q rfl) (Option.some_ne_none q).symm

/-- A new head at `n`, linked from `prev`. -/
theorem insertHead_spec {v : Option Nat} (hl : Leads s.next s.page v l)
    (hpn : Below prev n) (hne : ∀ r ∈ l, n < r.1) :
    let s' := ((s.setPage n k).setNext n v).store prev (some n)
    Leads s'.next s'.page (s'.deref prev) ((n, k) :: l) ∧ ∀ x, x ≤ n → Kept s s' prev x := by
  have hp : prev ≠ some n := hpn.ne (Nat.le_refl n)
  refine ⟨⟨deref_store, ?_, ?_⟩, fun x hx => ⟨fun q hq hpq => ?_, fun q hq => ?_, fun h => ?_⟩⟩
  · rw [store_page]
    exact Function.update_self ..
  · rw [store_next hp]
    simp only [setNext, Function.update_self]
    refine hl.congr (fun r hr => ?_) fun r hr => ?_
    · rw [store_next (hpn.ne (Nat.le_of_lt (hne r hr)))]
      exact Function.update_of_ne (Nat.ne_of_gt (hne r hr)) ..
    · rw [store_page]
      exact Function.update_of_ne (Nat.ne_of_gt (hne r hr)) ..
  · rw [store_next hpq]
    exact Function.update_of_ne (by omega) ..
  · rw [store_page]
    exact Function.update_of_ne (by omega) ..
  · rw [store_list h]
    rfl

theorem freeLoop_spec (hn : 0 < n) (hl : Leads s.next s.page (s.deref prev) l) (hf : Free l)
    (hb : ∀ r ∈ l, Below prev r.1) (hba : Below prev a) (hap : ∀ r ∈ l, Apart r (a, n))
    (hk : l.length < k) : ∃ s', freeLoop a n k s prev = some s' ∧
      Leads s'.next s'.page (s'.deref prev) (release a n l) ∧
      ∀ x, x ≤ a → (∀ r ∈ l, x ≤ r.1) → Kept s s' prev x := by
  induction l generalizing k prev with
  | nil =>
    obtain ⟨k, rfl⟩ := Nat.exists_eq_succ_of_ne_zero (Nat.ne_of_gt hk)
    have hd : s.deref prev = none := hl
    have hnil : Leads s.next s.page none [] := rfl
    obtain ⟨hl', hkept⟩ := insertHead_spec (n := a) (k := n) hnil hba
      fun r hr => absurd hr List.not_mem_nil
    exact ⟨_, by rw [freeLoop, hd], hl', fun x hx _ => hkept x hx⟩
  | cons r l ih =>
    obtain ⟨b, m⟩ := r
    obtain ⟨k, rfl⟩ := Nat.exists_eq_succ_of_ne_zero (Nat.ne_of_gt (Nat.zero_lt_of_lt hk))
    obtain ⟨hd, hm, hl⟩ := hl
    obtain ⟨hpos, hg, hf⟩ := free_cons.mp hf
    have hpb : Below prev b := hb (b, m) List.mem_cons_self
    have hab := hap (b, m) List.mem_cons_self
    simp only [Apart] at hd hm hpos hg hl hab
    have hlow : ∀ r ∈ l, b < r.1 := fun r hr => by
      have := hg r hr
      omega
    rw [freeLoop, hd, release]
    simp only [hm]
    rw [if_pos (by omega)]
    by_cases hend : b + m = a
    · rw [if_pos hend, if_pos hend]
      have hleads := mergeInto_leads (n := n) hl hlow
      rw [hm] at hleads
      refine ⟨_, rfl, ?_, fun x _ hx => mergeInto_kept (hx (b, m) List.mem_cons_self)⟩
      rw [mergeInto_deref hpb, hd]
      exact hleads
    · rw [if_neg hend, if_neg hend]
      by_cases hstart : b = a + n
      · rw [if_pos hstart, if_pos hstart]
        obtain ⟨hl', hkept⟩ := insertHead_spec (n := a) (k := m + n) hl hba fun r hr => by
          have := hlow r hr
          omega
        exact ⟨_, rfl, hl', fun x hx _ => hkept x hx⟩
      · rw [if_neg hstart, if_neg hstart]
        by_cases hgt : b > a + n
        · rw [if_pos hgt, if_pos hgt]
          have hl0 : Leads s.next s.page (some b) ((b, m) :: l) := ⟨rfl, hm, hl⟩
          obtain ⟨hl', hkept⟩ := insertHead_spec (n := a) (k := n) hl0 hba fun r hr => by
            rcases List.mem_cons.mp hr with rfl | hr
            · show a < b
              omega
            · have := hlow r hr
              omega
          exact ⟨_, rfl, hl', fun x hx _ => hkept x hx⟩
        · rw [if_neg hgt, if_neg hgt]
          have hbl : ∀ r ∈ l, Below (some b) r.1 := fun r hr q hq => by
            have := hlow r hr
            have := Option.some.inj hq
            omega
          have hba' : Below (some b) a := fun q hq => by
            have := Option.some.inj hq
            omega
          have hl0 : Leads s.next s.page (s.deref (some b)) l := hl
          obtain ⟨s', hs, hl', hkept⟩ := ih hl0 hf hbl hba'
            (fun r hr => hap r (List.mem_cons_of_mem _ hr)) (Nat.lt_of_succ_lt_succ hk)
          have hkb := hkept (b + 1) (by omega) hlow
          refine ⟨s', hs, ⟨?_, ?_, hl'⟩, fun x _ hx => ?_⟩
          · rw [hkb.deref hpb]
            exact hd
          · rw [hkb.page b (Nat.lt_succ_self b)]
            exact hm
          · exact hkb.pass (hx (b, m) List.mem_cons_self)

/-! ## Runs of calls -/

/-- The free list is `l`, and free runs and runs handed out are apart. -/
structure Heap (lo npages : Nat) (s : State) (l : List Run) : Prop where
  leads : Leads s.heap.next s.heap.page s.heap.list l
  free : Free l
  pos : ∀ r ∈ s.live, 0 < r.2
  apart : s.live.Pairwise Apart
  off : ∀ r ∈ l, ∀ t ∈ s.live, Apart r t
  inFree : ∀ r ∈ l, Within lo (lo + npages) r
  inLive : ∀ r ∈ s.live, Within lo (lo + npages) r
  sum : total l + total s.live = npages

variable {lo : Nat} {t t' : State} {act : Act}

namespace Heap

theorem length_lt (h : Heap lo npages t l) (hr : npages < rounds) : l.length < rounds := by
  have h1 := length_le_total h.free.pos
  have h2 := h.sum
  omega

/-- `rt_page_alloc` answers, with `NULL` only if no run is long enough. -/
theorem alloc (h : Heap lo npages t l) (hr : npages < rounds) (n : Nat) :
    ∃ p s', t.heap.rtPageAlloc rounds n = some (p, s') ∧
      (p = none ↔ n = 0 ∨ ∀ r ∈ l, r.2 < n) ∧
      (p = none → s' = t.heap) ∧
      ∀ a, p = some a → ∃ l', Heap lo npages ⟨s', (a, n) :: t.live⟩ l' := by
  unfold rtPageAlloc
  by_cases hn : n = 0
  · rw [if_pos hn]
    exact ⟨none, _, rfl, ⟨fun _ => .inl hn, fun _ => rfl⟩, fun _ => rfl, fun a ha => (by cases ha)⟩
  · rw [if_neg hn]
    have hpos := Nat.pos_of_ne_zero hn
    have hleads : Leads t.heap.next t.heap.page (t.heap.deref none) l := h.leads
    have hbelow : ∀ r ∈ l, Below none r.1 := fun r _ q hq => by cases hq
    rcases allocLoop_spec hpos hleads h.free hbelow (h.length_lt hr) with
      ⟨ht, ha⟩ | ⟨a, l', s', ht, ha, hl', -⟩
    · exact ⟨none, _, ha, ⟨fun _ => .inr (take_none.mp ht), fun _ => rfl⟩, fun _ => rfl,
        fun a ha => (by cases ha)⟩
    · refine ⟨some a, s', ha, ⟨fun he => (by cases he), fun he => ?_⟩, fun he => (by cases he),
        fun a' ha' => ?_⟩
      · rw [take_none.mpr (he.resolve_left hn)] at ht
        cases ht
      · obtain rfl := Option.some.inj ha'
        obtain ⟨hf, hsum, ⟨r, hr, hra, hrn⟩, hpart, -⟩ := take_some h.free hpos ht
        have hapart : ∀ u ∈ t.live, Apart (a, n) u := fun u hu => by
          have h1 := h.off r hr u hu
          have h2 := h.pos u hu
          simp only [Apart] at h1 ⊢
          omega
        refine ⟨l', hl', hf, fun u hu => ?_, List.pairwise_cons.mpr ⟨hapart, h.apart⟩,
          fun u hu v hv => ?_, fun u hu => ?_, fun u hu => ?_, ?_⟩
        · rcases List.mem_cons.mp hu with rfl | hu
          · exact hpos
          · exact h.pos u hu
        · obtain ⟨hua, w, hw, hle, hge⟩ := hpart u hu
          rcases List.mem_cons.mp hv with rfl | hv
          · exact hua
          · have h1 := h.off w hw v hv
            have h2 := h.pos v hv
            simp only [Apart] at h1 ⊢
            omega
        · obtain ⟨-, w, hw, hle, hge⟩ := hpart u hu
          obtain ⟨h1, h2⟩ := h.inFree w hw
          exact ⟨Nat.le_trans h1 hle, Nat.le_trans hge h2⟩
        · rcases List.mem_cons.mp hu with rfl | hu
          · obtain ⟨h1, h2⟩ := h.inFree r hr
            refine ⟨?_, ?_⟩
            · show lo ≤ a
              omega
            · show a + n ≤ lo + npages
              omega
          · exact h.inLive u hu
        · have h1 := h.sum
          show total l' + (n + total t.live) = npages
          omega

/-- `rt_page_free` of a run that was handed out returns. -/
theorem free_live (h : Heap lo npages t l) (hlo : 0 < lo) (hr : npages < rounds)
    (hm : (a, n) ∈ t.live) : ∃ s', t.heap.rtPageFree rounds a n = some s' ∧
      Heap lo npages ⟨s', t.live.erase (a, n)⟩ (release a n l) := by
  have hn : 0 < n := h.pos _ hm
  obtain ⟨ha, han⟩ := h.inLive _ hm
  simp only at ha han
  have hleads : Leads t.heap.next t.heap.page (t.heap.deref none) l := h.leads
  have hbelow : ∀ r ∈ l, Below none r.1 := fun r _ q hq => by cases hq
  have hba : Below none a := fun q hq => by cases hq
  obtain ⟨s', hs, hl', -⟩ := freeLoop_spec hn hleads h.free hbelow hba
    (fun r hr => h.off r hr _ hm) (h.length_lt hr)
  have hnd : t.live.Nodup := h.apart.imp_of_mem fun {u v} hu hv huv he => by
    have := h.pos u hu
    subst he
    simp only [Apart] at huv
    omega
  have hother : ∀ u ∈ t.live.erase (a, n), u ∈ t.live ∧ Apart (a, n) u := fun u hu => by
    obtain ⟨hne, hu⟩ := hnd.mem_erase_iff.mp hu
    exact ⟨hu, h.apart.forall hm hu (Ne.symm hne)⟩
  refine ⟨s', ?_, hl', free_release hn h.free fun r hr => h.off r hr _ hm,
    fun u hu => h.pos u (hother u hu).1, h.apart.sublist List.erase_sublist, fun r hr u hu => ?_,
    fun r hr => release_within ⟨ha, han⟩ h.inFree r hr, fun u hu => h.inLive u (hother u hu).1, ?_⟩
  · unfold rtPageFree
    rw [if_neg (by omega)]
    exact hs
  · obtain ⟨hu, hau⟩ := hother u hu
    exact release_apart (h.pos u hu) hau (fun r hr => h.off r hr u hu) r hr
  · have h1 := h.sum
    have h2 := total_erase hm
    rw [total_release]
    simp only at h2 ⊢
    omega

/-- What the owner writes is not on the free list. -/
theorem write (h : Heap lo npages t l) {addr : Nat} (hm : ∃ r ∈ t.live, r.1 ≤ addr ∧
    addr < r.1 + r.2) (next : Option Nat) (page : Nat) :
    Heap lo npages ⟨(t.heap.setNext addr next).setPage addr page, t.live⟩ l := by
  obtain ⟨u, hu, hle, hlt⟩ := hm
  have hne : ∀ r ∈ l, r.1 ≠ addr := fun r hr => by
    have h1 := h.off r hr u hu
    have h2 := h.free.pos r hr
    simp only [Apart] at h1
    omega
  exact { h with
    leads := h.leads.congr (fun r hr => Function.update_of_ne (hne r hr) ..)
      fun r hr => Function.update_of_ne (hne r hr) .. }

theorem step (h : Heap lo npages t l) (hlo : 0 < lo) (hr : npages < rounds)
    (hs : Pages.step rounds t act = some t') : ∃ l', Heap lo npages t' l' := by
  cases act with
  | alloc n =>
    obtain ⟨p, s', ha, -, hnull, hsome⟩ := h.alloc hr n
    simp only [Pages.step, ha, Option.map_some, Option.some.injEq] at hs
    cases p with
    | none =>
      rw [← hs, hnull rfl]
      exact ⟨l, h⟩
    | some a =>
      rw [← hs]
      exact hsome a rfl
  | free a n =>
    simp only [Pages.step] at hs
    split at hs
    · next hm =>
      obtain ⟨s', hf, hh⟩ := h.free_live hlo hr hm
      rw [hf] at hs
      rw [← Option.some.inj hs]
      exact ⟨_, hh⟩
    · cases hs
  | write addr next page =>
    simp only [Pages.step] at hs
    split at hs
    · next hm =>
      rw [← Option.some.inj hs]
      exact ⟨l, h.write hm next page⟩
    · cases hs

theorem init (hlo : lo ≠ 0) (hn : npages ≠ 0) (hr : 0 < rounds) : ∃ h,
    s.rtPageInit rounds lo npages = some h ∧ Heap lo npages ⟨h, []⟩ [(lo, npages)] := by
  have hnil : Leads s.next s.page (({ s with list := none } : PageHeap).deref none) [] := rfl
  have hnone : ∀ r ∈ ([] : List Run), Below none r.1 := fun r hr => absurd hr List.not_mem_nil
  have hba : Below none lo := fun q hq => by cases hq
  obtain ⟨s', hs, hl', -⟩ := freeLoop_spec (s := { s with list := none })
    (Nat.pos_of_ne_zero hn) hnil free_nil hnone hba
    (fun r hr => absurd hr List.not_mem_nil) hr
  have hor : ¬ (lo = 0 ∨ npages = 0) := fun h => h.elim hlo hn
  refine ⟨s', ?_, hl', free_release (Nat.pos_of_ne_zero hn) free_nil
    fun r hr => absurd hr List.not_mem_nil, fun r hr => absurd hr List.not_mem_nil,
    List.Pairwise.nil, fun r _ u hu => absurd hu List.not_mem_nil, fun r hr => ?_,
    fun r hr => absurd hr List.not_mem_nil, rfl⟩
  · unfold rtPageInit rtPageFree
    rw [if_neg hor, if_neg hor]
    exact hs
  · rw [List.mem_singleton.mp hr]
    exact ⟨Nat.le_refl _, Nat.le_refl _⟩

end Heap

/-- The free list is `l`, in order with a gap between any two runs; no two runs meet, and none is
lost. Both calls return; `rt_page_alloc(n)` is `NULL` only if `n` is 0 or no run has `n` pages. -/
structure Sound (rounds lo npages : Nat) (t : State) (l : List Run) : Prop where
  leads : Leads t.heap.next t.heap.page t.heap.list l
  pos : ∀ r ∈ l, 0 < r.2
  gaps : l.Pairwise fun r s => r.1 + r.2 < s.1
  apart : t.live.Pairwise Apart
  off : ∀ r ∈ l, ∀ u ∈ t.live, Apart r u
  inFree : ∀ r ∈ l, Within lo (lo + npages) r
  inLive : ∀ r ∈ t.live, Within lo (lo + npages) r
  sum : total l + total t.live = npages
  alloc : ∀ n, ∃ p h, t.heap.rtPageAlloc rounds n = some (p, h) ∧
    (p = none ↔ n = 0 ∨ ∀ r ∈ l, r.2 < n)
  free : ∀ a n, (a, n) ∈ t.live → ∃ h, t.heap.rtPageFree rounds a n = some h

/-- The page allocator is sound after every sequence of `rt_page_alloc` and of `rt_page_free` of
runs that it handed out. -/
theorem page_integrity (hlo : lo ≠ 0) (hn : npages ≠ 0) (hr : npages < rounds) (as : List Act) :
    ∃ h, s.rtPageInit rounds lo npages = some h ∧
      ∀ t, exec (step rounds) ⟨h, []⟩ as = some t → ∃ l, Sound rounds lo npages t l := by
  have hpos := Nat.pos_of_ne_zero hlo
  obtain ⟨h, hi, hh⟩ := Heap.init (s := s) hlo hn (Nat.zero_lt_of_lt hr)
  refine ⟨h, hi, fun t hx => ?_⟩
  obtain ⟨l, hl⟩ := exec_inv (I := fun t => ∃ l, Heap lo npages t l)
    (fun t a t' ⟨l, hl⟩ hs => hl.step hpos hr hs) hx ⟨_, hh⟩
  refine ⟨l, hl.leads, hl.free.pos, hl.free.gaps, hl.apart, hl.off, hl.inFree, hl.inLive, hl.sum,
    fun n => ?_, fun a n hm => ?_⟩
  · obtain ⟨p, h', ha, hp, -⟩ := hl.alloc hr n
    exact ⟨p, h', ha, hp⟩
  · obtain ⟨h', hf, -⟩ := hl.free_live hpos hr hm
    exact ⟨h', hf⟩

/-- A page in the middle comes back last. -/
def sampleRun : List Act :=
  [.alloc 2, .alloc 1, .alloc 3, .write 18 (some 7) 99, .free 16 2, .free 19 3, .free 18 1,
    .alloc 9]

theorem page_integrity_sample : ∃ h t l,
    rtPageInit 9 ⟨fun _ => none, fun _ => 0, none⟩ 16 8 = some h ∧
    exec (step 9) ⟨h, []⟩ sampleRun = some t ∧ t.heap.page 16 = 8 ∧ Sound 9 16 8 t l := by
  obtain ⟨h, hi, hall⟩ := page_integrity (s := ⟨fun _ => none, fun _ => 0, none⟩)
    (by decide : (16 : Nat) ≠ 0) (by decide : (8 : Nat) ≠ 0) (by decide : 8 < 9) sampleRun
  have hx : ((rtPageInit 9 ⟨fun _ => none, fun _ => 0, none⟩ 16 8).bind fun h =>
      exec (step 9) ⟨h, []⟩ sampleRun).map (fun t => t.heap.page 16) = some 8 := by decide
  rw [hi] at hx
  obtain ⟨t, ht, hp⟩ := Option.map_eq_some_iff.mp hx
  obtain ⟨l, hl⟩ := hall t ht
  exact ⟨h, t, l, hi, ht, hp, hl⟩

end Tudu.Pages
