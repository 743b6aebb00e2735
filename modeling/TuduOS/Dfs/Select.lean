import TuduOS.Dfs.Poll
import TuduOS.Lib.BitSet

/-!
# `select` (`select.c`)

`select` packs three sets of descriptors into one array for `poll` and unpacks what `poll` reports.
`poll` is the thread of `Tudu.Poll`, in any of its runs.

* `FdSet`: the words of an `fd_set`. The three sets are one function of their kind (`Kind`), with
  `none` for a null pointer.
* `Sets.pollset`: the array that is packed, `selectReturn`: what is unpacked from it.
* `SelectOk`: the sets and the value that the caller should get.
* `Reported`: what holds of the array in every run of `poll`.
* `select_ok_iff`: the sets are right unless a descriptor hangs up that the read set has not, or has
  an error that the set of exceptions did not ask for.
-/

namespace Tudu.Poll

open Lts BitSet

/-- `fds_bits` -/
abbrev FdSet := Nat → BitVec 32

namespace FdSet

/-- `FD_ISSET` -/
def isset (p : FdSet) (n : Nat) : Bool := p (n / 32) &&& 1#32 <<< (n % 32) ≠ 0

/-- `FD_SET` -/
def set (p : FdSet) (n : Nat) : FdSet :=
  Function.update p (n / 32) (p (n / 32) ||| 1#32 <<< (n % 32))

/-- `fdszero`: the word `w` is cleared in the turn for `n = 32 * w`. -/
def zero (p : FdSet) (nfds : Nat) : FdSet := fun w => if 32 * w < nfds then 0 else p w

end FdSet

inductive Kind where
  | read
  | write
  | except
  deriving DecidableEq

/-- The arguments `readfds`, `writefds` and `exceptfds`. -/
abbrev Sets := Kind → Option FdSet

namespace Kind

/-- What `select` asks `poll` for. -/
def events : Kind → BitVec 16
  | read => pollin.setWidth 16
  | write => pollout.setWidth 16
  | except => 0

/-- What it takes for an answer. -/
def answers : Kind → BitVec 32
  | read => pollin ||| pollhup
  | write => pollout
  | except => pollerr

end Kind

/-- `poll` reports the event of this kind. -/
def Pollfd.reports (pf : Pollfd) (k : Kind) : Bool := pf.revents.signExtend 32 &&& k.answers ≠ 0

namespace Sets

/-- The set is given, and `fd` is in it. -/
def has (s : Sets) (k : Kind) (fd : Nat) : Bool := (s k).any fun p => p.isset fd

/-- The entry for `fd`, if a set has it. -/
def entry (s : Sets) (fd : Nat) : Option Pollfd :=
  if s.has .read fd || s.has .write fd || s.has .except fd then
    some ⟨fd, (if s.has .read fd then Kind.read.events else 0) |||
      (if s.has .write fd then Kind.write.events else 0), 0⟩
  else none

def pollset (s : Sets) (nfds : Nat) : List Pollfd := (List.range nfds).filterMap s.entry

/-- One of the three tests for an entry. -/
def mark (r : Int × Sets) (pf : Pollfd) (k : Kind) : Int × Sets :=
  match r.2 k with
  | none => r
  | some p =>
    if pf.reports k then (r.1 + 1, Function.update r.2 k (some (p.set pf.fd.toNat))) else r

def report (r : Int × Sets) (pf : Pollfd) : Int × Sets :=
  mark (mark (mark r pf .read) pf .write) pf .except

end Sets

/-- `select` behind its call of `poll`, which returned `ret` and left `fds` in the array. -/
def selectReturn (nfds : Nat) (s : Sets) (ret : Int) (fds : List Pollfd) : Int × Sets :=
  let s : Sets := fun k => (s k).map fun p => p.zero nfds
  if 0 < ret then fds.foldl Sets.report (0, s) else (ret, s)

/-- What `select` returns, with what `poll` has reported; `nfds` below 0 is as 0. -/
inductive Select (nfds : Int) (s : Sets) (msec : Int) : Int × Sets → Option (Int × List Pollfd) → Prop
  /-- `rt_calloc` fails. -/
  | noMemory (h : s.pollset nfds.toNat ≠ []) : Select nfds s msec (-1, s) none
  | polled {acts : List Act} {t : State} {ret : Int}
      (hx : exec (step msec) (init (s.pollset nfds.toNat) msec) acts = some t)
      (hret : t.pc = .done ret) :
      Select nfds s msec (selectReturn nfds.toNat s ret t.fds) (some (ret, t.fds))

/-- The number of descriptors below `nfds` in the sets. -/
def Sets.card (s : Sets) (nfds : Nat) : Nat :=
  (List.range nfds).countP (s.has .read) + (List.range nfds).countP (s.has .write) +
    (List.range nfds).countP (s.has .except)

/-- What the caller should get from `poll`'s report. -/
structure SelectOk (nfds : Nat) (s : Sets) (ret : Int) (fds : List Pollfd) (r : Int × Sets) :
    Prop where
  subset : ∀ k fd, r.2.has k fd = true → s.has k fd = true
  agrees : 0 ≤ ret → ∀ k, ∀ fd < nfds, r.2.has k fd = true ↔
    s.has k fd = true ∧ ∃ pf ∈ fds, pf.fd = fd ∧ pf.reports k = true
  value : 0 ≤ ret → r.1 = r.2.card nfds
  error : ret < 0 → r.1 < 0

/-! ## Sets of descriptors -/

variable {p : FdSet} {s : Sets} {k : Kind} {n m nfds : Nat} {pf : Pollfd} {fds : List Pollfd}

namespace FdSet

theorem isset_iff : p.isset n = true ↔ n % 32 ∈ bits (p (n / 32)) := by
  have hlt : n % 32 < 32 := Nat.mod_lt _ (by decide)
  rw [isset, decide_eq_true_iff, and_ne_zero_iff]
  constructor
  · rintro ⟨i, hi, hn⟩
    rw [mem_bits_one_shiftLeft hlt] at hn
    exact hn ▸ hi
  · exact fun h => ⟨_, h, (mem_bits_one_shiftLeft hlt).mpr rfl⟩

theorem isset_set : (p.set m).isset n = true ↔ n = m ∨ p.isset n = true := by
  have hlt : m % 32 < 32 := Nat.mod_lt _ (by decide)
  rw [isset_iff, isset_iff, set]
  by_cases hw : n / 32 = m / 32
  · rw [hw, Function.update_self, bits_or, Set.mem_union, mem_bits_one_shiftLeft hlt, or_comm]
    refine or_congr_left ⟨fun h => ?_, fun h => ?_⟩
    · omega
    · rw [h]
  · rw [Function.update_of_ne hw]
    refine (or_iff_right fun h => hw ?_).symm
    rw [h]

theorem isset_zero : (p.zero m).isset n = true ↔ m ≤ 32 * (n / 32) ∧ p.isset n = true := by
  rw [isset_iff, isset_iff, zero]
  split
  · rw [bits_zero]
    exact iff_of_false (Set.notMem_empty _) fun h => by omega
  · exact (and_iff_right (by omega)).symm

end FdSet

/-! ## What `poll` reports -/

/-- `POLLIN` and `POLLOUT` are reported only where they were asked for. -/
def Pollfd.Masked (pf : Pollfd) : Prop :=
  ∀ i < 2, pf.revents.getLsbD i = true → pf.events.getLsbD i = true

theorem Pollfd.masked_of_zero (h : pf.revents = 0) : pf.Masked := by
  intro i _ hb
  rw [h] at hb
  simp at hb

/-- The descriptor and the events of an entry, which `poll` leaves. -/
def Pollfd.request (pf : Pollfd) : Int × BitVec 16 := (pf.fd, pf.events)

/-- The array after a pass, or in one: `n` entries are done. -/
structure Reported (reqs : List (Int × BitVec 16)) (t : State) : Prop where
  requests : t.fds.map Pollfd.request = reqs
  scanned : ∀ n, t.pc = .scan n → ∀ i < n, ∀ pf, t.fds[i]? = some pf →
    pf.Masked ∧ (t.num = 0 → pf.revents = 0)
  returned : ∀ r, t.pc = .done r → 0 ≤ r → (∀ pf ∈ t.fds, pf.Masked) ∧
    (r = 0 → ∀ pf ∈ t.fds, pf.revents = 0)

variable {reqs : List (Int × BitVec 16)} {t t' : State} {msec : Int} {ans : FileAnswer}

/-- One entry: what it asks is kept, and what is reported was asked for. -/
theorem doPollfd_request (pf : Pollfd) (pt : PollTable) (ans : FileAnswer) :
    (doPollfd pf pt ans).2.1.request = pf.request := by
  unfold doPollfd
  split
  · rfl
  · cases ans with
    | noFile => rfl
    | noPoll => rfl
    | poll adds mask =>
      simp only
      split <;> rfl

theorem Pollfd.masked_report (pf : Pollfd) (mask : BitVec 32) :
    (pf.report (mask &&& pf.wanted)).Masked := by
  intro i hi hb
  have hw : pf.wanted.getLsbD i = true := by
    simp only [Pollfd.report, BitVec.getLsbD_setWidth, BitVec.getLsbD_and, Bool.and_eq_true] at hb
    exact hb.2.2
  have hext : (pf.events.signExtend 32).getLsbD i = pf.events.getLsbD i := by
    rw [BitVec.getLsbD_signExtend, if_pos (by omega), decide_eq_true (by omega), Bool.true_and]
  rw [Pollfd.wanted, BitVec.getLsbD_or, BitVec.getLsbD_or, hext] at hw
  have hrest : pollerr.getLsbD i = false ∧ pollhup.getLsbD i = false := by
    rcases Nat.le_one_iff_eq_zero_or_eq_one.mp (Nat.lt_succ_iff.mp hi) with rfl | rfl <;> decide
  rw [hrest.1, hrest.2, Bool.or_false, Bool.or_false] at hw
  exact hw

theorem doPollfd_masked (pf : Pollfd) (pt : PollTable) (ans : FileAnswer) :
    (doPollfd pf pt ans).2.1.Masked := by
  unfold doPollfd
  split
  · exact Pollfd.masked_of_zero rfl
  · cases ans with
    | noFile =>
      intro i hi hb
      have : (pollnval.setWidth 16).getLsbD i = false := by
        rcases Nat.le_one_iff_eq_zero_or_eq_one.mp (Nat.lt_succ_iff.mp hi) with rfl | rfl <;> decide
      exact absurd (hb.symm.trans this) (by decide)
    | noPoll => exact pf.masked_report _
    | poll adds mask =>
      simp only
      split
      · exact Pollfd.masked_of_zero rfl
      · exact pf.masked_report _

/-- An entry that is not counted reports nothing. -/
theorem doPollfd_zero {pt : PollTable} (h : (doPollfd pf pt ans).1 = 0) :
    (doPollfd pf pt ans).2.1.revents = 0 := by
  unfold doPollfd at h ⊢
  split
  · rfl
  · rw [if_neg ‹_›] at h
    cases ans with
    | noFile => exact absurd h (show pollnval ≠ 0 by decide)
    | noPoll =>
      simp only [Pollfd.report] at h ⊢
      rw [h]
      rfl
    | poll adds mask =>
      simp only at h ⊢
      split
      · rfl
      · rw [if_neg ‹_›] at h
        simp only [Pollfd.report] at h ⊢
        rw [h]
        rfl

theorem Reported.scan (hi : Reported reqs t) {n : Nat} (hpc : t.pc = .scan n) :
    Reported reqs (scan t n ans) := by
  cases hn : t.fds[n]? with
  | none =>
    have hlen := List.getElem?_eq_none_iff.mp hn
    have hall : ∀ pf ∈ t.fds, pf.Masked ∧ (t.num = 0 → pf.revents = 0) := by
      intro pf hpf
      obtain ⟨i, hlt, rfl⟩ := List.getElem_of_mem hpf
      exact hi.scanned n hpc i (by omega) _ (List.getElem?_eq_getElem hlt)
    rw [scan_none hn]
    refine ⟨hi.requests, ?_, ?_⟩
    · intro m hm
      simp only at hm
      split at hm <;> cases hm
    · intro r hr hr0
      simp only at hr
      split at hr
      · cases hr
        exact ⟨fun pf hpf => (hall pf hpf).1, fun h pf hpf => (hall pf hpf).2 (by omega)⟩
      · cases hr
  | some pf =>
    have hreq : (t.fds.set n (doPollfd pf t.pt ans).2.1).map Pollfd.request = reqs := by
      rw [List.map_set, doPollfd_request, ← hi.requests]
      obtain ⟨hlt, rfl⟩ := List.getElem?_eq_some_iff.mp hn
      refine List.ext_getElem (by simp) fun i h₁ h2 => ?_
      rw [List.getElem_set]
      split
      · subst_vars
        rw [List.getElem_map]
      · rfl
    -- the entries in front of the next one
    have hnext : ∀ num', (num' = 0 → t.num = 0 ∧ (doPollfd pf t.pt ans).1 = 0) →
        ∀ i < n + 1, ∀ pf', (t.fds.set n (doPollfd pf t.pt ans).2.1)[i]? = some pf' →
          pf'.Masked ∧ (num' = 0 → pf'.revents = 0) := by
      intro num' hnum i hlt pf' hpf'
      rw [List.getElem?_set] at hpf'
      split at hpf'
      · rw [if_pos (List.getElem?_eq_some_iff.mp hn).1] at hpf'
        cases hpf'
        exact ⟨doPollfd_masked pf t.pt ans, fun h => doPollfd_zero (hnum h).2⟩
      · have := hi.scanned n hpc i (by omega) pf' hpf'
        exact ⟨this.1, fun h => this.2 (hnum h).1⟩
    simp only [Poll.scan, hn]
    split
    · refine ⟨hreq, fun m hm => (by cases hm), fun r hr hr0 => ?_⟩
      cases hr
      rename_i hneg
      exact absurd hr0 (Int.not_le.mpr (BitVec.slt_iff_toInt_lt.mp hneg))
    · split
      · refine ⟨hreq, fun m hm => ?_, fun r hr => (by cases hr)⟩
        cases hm
        exact hnext t.num fun h => ⟨h, ‹_›⟩
      · refine ⟨hreq, fun m hm => ?_, fun r hr => (by cases hr)⟩
        cases hm
        exact hnext (t.num + 1) fun h => absurd h (Nat.succ_ne_zero _)

theorem Reported.congr (hi : Reported reqs t) (hf : t'.fds = t.fds) (hn : t'.num = t.num)
    (hpc : t'.pc = t.pc) : Reported reqs t' where
  requests := by rw [hf, hi.requests]
  scanned := by
    rw [hf, hn, hpc]
    exact hi.scanned
  returned := by
    rw [hf, hpc]
    exact hi.returned

/-- Between two passes only the requests count. -/
theorem reported_startPass (h : t.fds.map Pollfd.request = reqs) : Reported reqs (startPass t) where
  requests := h
  scanned := by
    intro n hn i hi
    cases hn
    exact absurd hi (Nat.not_lt_zero i)
  returned := fun r hr => by cases hr

theorem Reported.run (hi : Reported reqs t) (hs : run msec t ans = some t') : Reported reqs t' := by
  cases hpc : t.pc with
  | scan n =>
    simp only [Poll.run, hpc, Option.some.injEq] at hs
    exact hs ▸ hi.scan hpc
  | wait =>
    have hsleep : ∀ timer, Reported reqs
        { t with suspended := true, timer := timer, pc := .sleep, rested := true } := fun timer =>
      ⟨hi.requests, fun n hn => (by cases hn), fun r hr => (by cases hr)⟩
    simp only [Poll.run, hpc, pollWaitTimeout] at hs
    split at hs
    · split at hs
      · split at hs
        · cases hs
          exact hsleep _
        · cases hs
      · cases hs
        exact hsleep none
    · cases hs
      exact reported_startPass hi.requests
  | sleep =>
    simp only [Poll.run, hpc] at hs
    split at hs
    · cases hs
    · cases hs
      exact reported_startPass hi.requests
  | done r => simp [Poll.run, hpc] at hs

theorem reported_step (t : State) (act : Act) (t' : State) (hi : Reported reqs t)
    (hs : step msec t act = some t') : Reported reqs t' := by
  cases act with
  | run ans =>
    obtain ⟨u, hu, rfl⟩ := Option.map_eq_some_iff.mp hs
    exact (hi.run hu).congr rfl rfl rfl
  | wakeup i key =>
    simp only [step, wakeup] at hs
    split at hs
    · cases hs
    · split at hs
      · cases hs
        exact hi.congr rfl rfl rfl
      · cases hs
        exact hi
  | tick =>
    simp only [step, tick] at hs
    split at hs
    · cases hs
      exact hi
    · split at hs
      · cases hs
        exact hi.congr rfl rfl rfl
      · split at hs
        · cases hs
          exact hi.congr rfl rfl rfl
        · cases hs

/-- What every run of `poll` reports. -/
theorem poll_reported {fds : List Pollfd} {acts : List Act}
    (hx : exec (step msec) (init fds msec) acts = some t) : Reported (fds.map Pollfd.request) t :=
  exec_inv reported_step hx (reported_startPass rfl)

/-! ## Packing -/

namespace Sets

theorem has_isSome {fd : Nat} (h : s.has k fd = true) : (s k).isSome = true := by
  unfold has at h
  cases hk : s k with
  | none => simp [hk] at h
  | some p => rfl

/-- A descriptor is in one of the sets. -/
def asks (s : Sets) (fd : Nat) : Bool := s.has .read fd || s.has .write fd || s.has .except fd

/-- The events that are asked for. -/
def wants (s : Sets) (fd : Nat) : BitVec 16 :=
  (if s.has .read fd then Kind.read.events else 0) |||
    (if s.has .write fd then Kind.write.events else 0)

theorem requests_pollset : (s.pollset nfds).map Pollfd.request =
    ((List.range nfds).filter s.asks).map fun (fd : Nat) => ((fd : Int), s.wants fd) := by
  rw [pollset, List.map_filterMap, ← List.filterMap_eq_map, ← List.filterMap_eq_filter,
    List.filterMap_filterMap]
  refine List.filterMap_congr fun fd _ => ?_
  simp only [entry, ← asks.eq_def]
  cases h : s.asks fd <;> simp [h, Option.guard, Pollfd.request, wants]

theorem wants_bit {fd : Nat} :
    ((s.wants fd).getLsbD 0 = s.has .read fd) ∧ (s.wants fd).getLsbD 1 = s.has .write fd := by
  unfold wants
  cases s.has .read fd <;> cases s.has .write fd <;> decide

/-- The entries that come back: one for each descriptor that a set has. -/
theorem mem_returned (hr : fds.map Pollfd.request = (s.pollset nfds).map Pollfd.request)
    (hpf : pf ∈ fds) :
    ∃ fd < nfds, pf.fd = (fd : Int) ∧ pf.events = s.wants fd ∧ s.asks fd = true := by
  have hm := List.mem_map_of_mem (f := Pollfd.request) hpf
  rw [hr, requests_pollset, List.mem_map] at hm
  obtain ⟨fd, hfd, heq⟩ := hm
  rw [List.mem_filter, List.mem_range] at hfd
  obtain ⟨hfd', hev⟩ := Prod.mk.inj heq
  exact ⟨fd, hfd.1, hfd'.symm, hev.symm, hfd.2⟩

theorem fds_returned (hr : fds.map Pollfd.request = (s.pollset nfds).map Pollfd.request) :
    fds.map (fun pf => pf.fd.toNat) = (List.range nfds).filter s.asks := by
  have h : (fds.map Pollfd.request).map (fun q => q.1.toNat) =
      ((s.pollset nfds).map Pollfd.request).map (fun q => q.1.toNat) := by rw [hr]
  rw [requests_pollset, List.map_map, List.map_map] at h
  rw [show (fun pf : Pollfd => pf.fd.toNat) = (fun q => q.1.toNat) ∘ Pollfd.request from rfl, h]
  exact List.map_id' _

/-! ## Unpacking -/

variable {r : Int × Sets}

theorem mark_isSome {j : Kind} : ((mark r pf k).2 j).isSome = (r.2 j).isSome := by
  unfold mark
  cases hk : r.2 k with
  | none => rfl
  | some p =>
    simp only
    split
    · by_cases hj : j = k
      · subst hj
        simp [hk]
      · simp [Function.update_of_ne hj]
    · rfl

theorem mark_has {j : Kind} {fd : Nat} : (mark r pf k).2.has j fd = true ↔
    r.2.has j fd = true ∨
      (j = k ∧ (r.2 k).isSome = true ∧ pf.reports k = true ∧ fd = pf.fd.toNat) := by
  unfold mark
  cases hk : r.2 k with
  | none => simp
  | some p =>
    simp only
    split
    · by_cases hj : j = k
      · subst hj
        simp [has, FdSet.isset_set, or_comm, *]
      · simp [has, hj]
    · simp [*]

theorem mark_value : (mark r pf k).1 =
    r.1 + ([pf].countP fun pf => (r.2 k).isSome && pf.reports k : Nat) := by
  unfold mark
  cases hk : r.2 k with
  | none => simp
  | some p =>
    simp only
    split <;> simp [*]

theorem report_isSome : ((report r pf).2 k).isSome = (r.2 k).isSome := by
  rw [report, mark_isSome, mark_isSome, mark_isSome]

theorem report_has {fd : Nat} : (report r pf).2.has k fd = true ↔
    r.2.has k fd = true ∨ ((r.2 k).isSome = true ∧ pf.reports k = true ∧ fd = pf.fd.toNat) := by
  rw [report, mark_has, mark_has, mark_has, mark_isSome, mark_isSome, mark_isSome]
  cases k <;> simp

/-- The number of entries that are counted for a set. -/
def hits (s : Sets) (fds : List Pollfd) (k : Kind) : Nat :=
  fds.countP fun pf => (s k).isSome && pf.reports k

theorem hits_cons (s : Sets) (pf : Pollfd) (fds : List Pollfd) (k : Kind) :
    s.hits (pf :: fds) k = s.hits [pf] k + s.hits fds k := by
  rw [hits, List.countP_cons, Nat.add_comm]
  exact congrArg (· + s.hits fds k) (by simp [hits, List.countP_cons])

theorem report_value : (report r pf).1 =
    r.1 + (r.2.hits [pf] .read + r.2.hits [pf] .write + r.2.hits [pf] .except : Nat) := by
  rw [report, mark_value, mark_value, mark_value, mark_isSome, mark_isSome, mark_isSome]
  unfold hits
  omega

theorem foldl_has {fd : Nat} (fds : List Pollfd) : ∀ r : Int × Sets,
    (fds.foldl report r).2.has k fd = true ↔ r.2.has k fd = true ∨
      ((r.2 k).isSome = true ∧ ∃ pf ∈ fds, pf.reports k = true ∧ fd = pf.fd.toNat) := by
  induction fds with
  | nil => simp
  | cons pf fds ih =>
    intro r
    rw [List.foldl_cons, ih, report_has, report_isSome, or_assoc, ← and_or_left,
      List.exists_mem_cons_iff]

theorem foldl_value (fds : List Pollfd) : ∀ r : Int × Sets,
    (fds.foldl report r).1 =
      r.1 + (r.2.hits fds .read + r.2.hits fds .write + r.2.hits fds .except : Nat) := by
  induction fds with
  | nil => simp [hits]
  | cons pf fds ih =>
    intro r
    have hsame : ∀ k, (report r pf).2.hits fds k = r.2.hits fds k := fun k => by
      rw [hits, hits, report_isSome]
    rw [List.foldl_cons, ih, report_value, hsame, hsame, hsame]
    have := hits_cons r.2 pf fds .read
    have := hits_cons r.2 pf fds .write
    have := hits_cons r.2 pf fds .except
    omega

/-- The three sets behind `fdszero`. -/
def cleared (s : Sets) (nfds : Nat) : Sets := fun k => (s k).map fun p => p.zero nfds

theorem cleared_isSome : (s.cleared nfds k).isSome = (s k).isSome := Option.isSome_map ..

theorem cleared_has {fd : Nat} : (s.cleared nfds).has k fd = true ↔
    nfds ≤ 32 * (fd / 32) ∧ s.has k fd = true := by
  unfold has cleared
  cases s k with
  | none => simp
  | some p => exact FdSet.isset_zero

theorem cleared_has_lt {fd : Nat} (h : fd < nfds) : (s.cleared nfds).has k fd = false := by
  refine Bool.eq_false_iff.mpr fun hh => ?_
  have := (cleared_has.mp hh).1
  omega

end Sets

theorem selectReturn_eq (ret : Int) (fds : List Pollfd) : selectReturn nfds s ret fds =
    if 0 < ret then fds.foldl Sets.report (0, s.cleared nfds) else (ret, s.cleared nfds) := rfl

theorem selectReturn_has {ret : Int} {fd : Nat} (h : 0 < ret) :
    (selectReturn nfds s ret fds).2.has k fd = true ↔
      (nfds ≤ 32 * (fd / 32) ∧ s.has k fd = true) ∨
        ((s k).isSome = true ∧ ∃ pf ∈ fds, pf.reports k = true ∧ fd = pf.fd.toNat) := by
  rw [selectReturn_eq, if_pos h, Sets.foldl_has, Sets.cleared_has,
    Sets.cleared_isSome]

/-- For each kind as many bits below `nfds` as entries. -/
theorem countP_has {s' : Sets} (hr : fds.map Pollfd.request = (s.pollset nfds).map Pollfd.request)
    (hh : ∀ fd < nfds, s'.has k fd = true ↔
      (s k).isSome = true ∧ ∃ pf ∈ fds, pf.reports k = true ∧ fd = pf.fd.toNat) :
    (List.range nfds).countP (s'.has k) = s.hits fds k := by
  have hnd : (fds.map fun pf => pf.fd.toNat).Nodup := by
    rw [Sets.fds_returned hr]
    exact List.nodup_range.filter _
  have hperm : (List.range nfds).filter (s'.has k) |>.Perm
      ((fds.filter fun pf => (s k).isSome && pf.reports k).map fun pf => pf.fd.toNat) := by
    refine (List.perm_ext_iff_of_nodup (List.nodup_range.filter _) ?_).mpr fun fd => ?_
    · exact hnd.sublist (List.filter_sublist.map _)
    · rw [List.mem_filter, List.mem_range, List.mem_map]
      constructor
      · rintro ⟨hlt, hhas⟩
        obtain ⟨hk, pf, hpf, hrep, rfl⟩ := (hh fd hlt).mp hhas
        exact ⟨pf, List.mem_filter.mpr ⟨hpf, by rw [hk, hrep]; rfl⟩, rfl⟩
      · rintro ⟨pf, hpf, rfl⟩
        obtain ⟨hmem, hrep⟩ := List.mem_filter.mp hpf
        obtain ⟨fd, hlt, hfd, -⟩ := Sets.mem_returned hr hmem
        rw [Bool.and_eq_true] at hrep
        rw [hfd, Int.toNat_natCast]
        refine ⟨hlt, (hh fd hlt).mpr ⟨hrep.1, pf, hmem, hrep.2, ?_⟩⟩
        rw [hfd, Int.toNat_natCast]
  rw [List.countP_eq_length_filter, hperm.length_eq, List.length_map, Sets.hits,
    List.countP_eq_length_filter]

/-! ## The condition -/

theorem mem_bits_signExtend {i : Nat} (h : i < 16) :
    i ∈ bits (pf.revents.signExtend 32) ↔ pf.revents.getLsbD i = true := by
  rw [mem_bits, BitVec.getLsbD_signExtend, if_pos h, decide_eq_true (by omega), Bool.true_and]

/-- One of the `POLL` constants in `revents`. -/
theorem revents_and_iff {i : Nat} (h : i < 16) :
    pf.revents.signExtend 32 &&& 1#32 <<< i ≠ 0 ↔ pf.revents.getLsbD i = true := by
  rw [and_ne_zero_iff, ← mem_bits_signExtend h]
  constructor
  · rintro ⟨j, hj, hi⟩
    exact (mem_bits_one_shiftLeft (by omega)).mp hi ▸ hj
  · exact fun hi => ⟨i, hi, (mem_bits_one_shiftLeft (by omega)).mpr rfl⟩

theorem reports_iff : pf.reports k = true ↔
    (k = .read ∧ (pf.revents.getLsbD 0 = true ∨ pf.revents.signExtend 32 &&& pollhup ≠ 0)) ∨
    (k = .write ∧ pf.revents.getLsbD 1 = true) ∨
    (k = .except ∧ pf.revents.signExtend 32 &&& pollerr ≠ 0) := by
  unfold Pollfd.reports
  rw [decide_eq_true_iff]
  cases k with
  | read =>
    have hor : pf.revents.signExtend 32 &&& (pollin ||| pollhup) ≠ 0 ↔
        pf.revents.signExtend 32 &&& 1#32 <<< 0 ≠ 0 ∨
          pf.revents.signExtend 32 &&& pollhup ≠ 0 := by
      rw [and_ne_zero_iff, bits_or, Set.inter_union_distrib_left, Set.union_nonempty,
        ← and_ne_zero_iff, ← and_ne_zero_iff]
      rfl
    simp only [Kind.answers, hor, revents_and_iff (show 0 < 16 by decide), reduceCtorEq, true_and,
      false_and, or_false]
  | write =>
    simp only [Kind.answers, show pollout = 1#32 <<< 1 from rfl,
      revents_and_iff (show 1 < 16 by decide), reduceCtorEq, true_and, false_and, or_false, false_or]
  | except => simp only [Kind.answers, reduceCtorEq, true_and, false_and, false_or]

/-- What is reported for a given set comes from that set. -/
def Asked (s : Sets) (fds : List Pollfd) : Prop :=
  ∀ pf ∈ fds, ∀ k, pf.reports k = true → (s k).isSome = true → s.has k pf.fd.toNat = true

/-- A descriptor hangs up only where the read set, if given, has it, and has an error only where
the set of exceptions has it. -/
def Expected (s : Sets) (pf : Pollfd) : Prop :=
  (pf.revents.signExtend 32 &&& pollhup ≠ 0 → (s .read).isSome = true →
    s.has .read pf.fd.toNat = true) ∧
  (pf.revents.signExtend 32 &&& pollerr ≠ 0 → (s .except).isSome = true →
    s.has .except pf.fd.toNat = true)

/-- The answers to `POLLIN` and `POLLOUT` come from their sets anyway. -/
theorem asked_iff (hr : fds.map Pollfd.request = (s.pollset nfds).map Pollfd.request)
    (hm : ∀ pf ∈ fds, pf.Masked) : Asked s fds ↔ ∀ pf ∈ fds, Expected s pf := by
  constructor
  · exact fun h pf hpf => ⟨fun hup => h pf hpf .read (reports_iff.mpr (.inl ⟨rfl, .inr hup⟩)),
      fun herr => h pf hpf .except (reports_iff.mpr (.inr (.inr ⟨rfl, herr⟩)))⟩
  · intro h pf hpf k hrep hk
    obtain ⟨fd, -, hfd, hev, -⟩ := Sets.mem_returned hr hpf
    have hto : pf.fd.toNat = fd := by rw [hfd, Int.toNat_natCast]
    have hmask := hm pf hpf
    rcases reports_iff.mp hrep with ⟨rfl, h0 | hup⟩ | ⟨rfl, h1⟩ | ⟨rfl, herr⟩
    · rw [hto, ← Sets.wants_bit.1, ← hev]
      exact hmask 0 (by decide) h0
    · exact (h pf hpf).1 hup hk
    · rw [hto, ← Sets.wants_bit.2, ← hev]
      exact hmask 1 (by decide) h1
    · exact (h pf hpf).2 herr hk

/-- A positive answer of `poll`. -/
theorem selectOk_pos {ret : Int} (h : 0 < ret)
    (hr : fds.map Pollfd.request = (s.pollset nfds).map Pollfd.request) :
    SelectOk nfds s ret fds (selectReturn nfds s ret fds) ↔ Asked s fds := by
  have hhas : ∀ k, ∀ fd < nfds, (selectReturn nfds s ret fds).2.has k fd = true ↔
      (s k).isSome = true ∧ ∃ pf ∈ fds, pf.reports k = true ∧ fd = pf.fd.toNat := by
    intro k fd hfd
    rw [selectReturn_has h, or_iff_right fun hh => by omega]
  constructor
  · intro hok pf hpf k hrep hk
    obtain ⟨fd, hlt, hfd, -⟩ := Sets.mem_returned hr hpf
    have hto : pf.fd.toNat = fd := by rw [hfd, Int.toNat_natCast]
    exact hok.subset k _ ((hhas k _ (hto ▸ hlt)).mpr ⟨hk, pf, hpf, hrep, rfl⟩)
  · intro ha
    refine ⟨fun k fd hfd => ?_, fun _ k fd hlt => ?_, fun _ => ?_, fun hneg => by omega⟩
    · rcases (selectReturn_has h).mp hfd with ⟨-, hs⟩ | ⟨hk, pf, hpf, hrep, rfl⟩
      · exact hs
      · exact ha pf hpf k hrep hk
    · rw [hhas k fd hlt]
      constructor
      · rintro ⟨hk, pf, hpf, hrep, rfl⟩
        obtain ⟨fd, -, hfd, -⟩ := Sets.mem_returned hr hpf
        exact ⟨ha pf hpf k hrep hk, pf, hpf, by rw [hfd, Int.toNat_natCast], hrep⟩
      · rintro ⟨hs, pf, hpf, hfd, hrep⟩
        exact ⟨Sets.has_isSome hs, pf, hpf, hrep, by rw [hfd, Int.toNat_natCast]⟩
    · rw [Sets.card, countP_has hr (hhas .read), countP_has hr (hhas .write),
        countP_has hr (hhas .except), selectReturn_eq, if_pos h, Sets.foldl_value]
      have hsame : ∀ k, (s.cleared nfds).hits fds k = s.hits fds k := fun k => by
        rw [Sets.hits, Sets.hits, Sets.cleared_isSome]
      rw [hsame, hsame, hsame, Int.zero_add]

/-- Nothing is ready, or `poll` failed. -/
theorem selectOk_le {ret : Int} (h : ret ≤ 0) (hz : ret = 0 → ∀ pf ∈ fds, pf.revents = 0) :
    SelectOk nfds s ret fds (selectReturn nfds s ret fds) := by
  have heq : selectReturn nfds s ret fds = (ret, s.cleared nfds) := by
    rw [selectReturn_eq, if_neg (by omega)]
  rw [heq]
  refine ⟨fun k fd hfd => (Sets.cleared_has.mp hfd).2, fun hr k fd hlt => ?_, fun hr => ?_, id⟩
  · rw [Sets.cleared_has_lt hlt]
    refine iff_of_false Bool.false_ne_true ?_
    rintro ⟨-, pf, hpf, -, hrep⟩
    rw [Pollfd.reports, hz (by omega) pf hpf] at hrep
    simp at hrep
  · have hcount : ∀ k, (List.range nfds).countP ((s.cleared nfds).has k) = 0 := fun k =>
      List.countP_eq_zero.mpr fun fd hfd => by
        rw [Sets.cleared_has_lt (List.mem_range.mp hfd)]
        exact Bool.false_ne_true
    rw [Sets.card, hcount, hcount, hcount]
    omega

/-- `select` gives the caller what `poll` reports, unless `poll` reports what no set asked for. -/
theorem select_ok_iff {nfds msec ret : Int} {r : Int × Sets}
    (h : Select nfds s msec r (some (ret, fds))) :
    SelectOk nfds.toNat s ret fds r ↔ ret < 0 ∨ ∀ pf ∈ fds, Expected s pf := by
  cases h with
  | polled hx hret =>
    have hrep := poll_reported hx
    rcases lt_or_ge 0 ret with hpos | hle
    · rw [selectOk_pos hpos hrep.requests,
        asked_iff hrep.requests (hrep.returned ret hret (Int.le_of_lt hpos)).1,
        or_iff_right (by omega)]
    · refine iff_of_true (selectOk_le hle fun h0 => ?_) ?_
      · exact (hrep.returned ret hret (by omega)).2 h0
      · rcases Int.lt_or_eq_of_le hle with hneg | h0
        · exact .inl hneg
        · refine .inr fun pf hpf => ?_
          have hz := (hrep.returned ret hret (by omega)).2 h0 pf hpf
          unfold Expected
          rw [hz]
          exact ⟨fun hc => absurd rfl hc, fun hc => absurd rfl hc⟩

/-- Descriptor 3 in the read set: it is ready and hangs up. -/
def readThree : Sets := fun k => if k = .read then some (FdSet.set (fun _ => 0) 3) else none

theorem select_ok_read :
    ∃ r fds, Select 4 readThree 1000 r (some (1, fds)) ∧ r.1 = 1 ∧ SelectOk 4 readThree 1 fds r := by
  have hsel : Select 4 readThree 1000 _ (some (1, _)) :=
    @Select.polled 4 readThree 1000 [.run (.poll 1 (pollin ||| pollhup)), .run .noPoll] _ _ rfl rfl
  exact ⟨_, _, hsel, rfl, (select_ok_iff hsel).mpr (.inr (by unfold Expected; decide))⟩

/-- Descriptor 3 in the write set; the read set is given and empty. -/
def writeThree : Sets := fun k =>
  if k = .write then some (FdSet.set (fun _ => 0) 3)
  else if k = .read then some fun _ => 0 else none

/-- It hangs up, and comes back in the read set. -/
theorem select_unexpected :
    ∃ r fds, Select 4 writeThree 1000 r (some (1, fds)) ∧ ¬SelectOk 4 writeThree 1 fds r := by
  have hsel : Select 4 writeThree 1000 _ (some (1, _)) :=
    @Select.polled 4 writeThree 1000 [.run (.poll 1 pollhup), .run .noPoll] _ _ rfl rfl
  refine ⟨_, _, hsel, fun hok => ?_⟩
  exact absurd (hok.subset .read 3 (by decide)) (by decide)

end Tudu.Poll
