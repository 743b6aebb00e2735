import TuduOS.Flash.Find

/-!
# Reading a file of the XIP file system (`xipfs.c`, `ef_env.c`)

A file is an ENV. `dfs_xipfs_read` reads at the position of the descriptor: `ef_get_env_stream` cuts
the length down, if it is greater than that of the whole value.

* `pieces`: the value, in pieces of the lengths that are asked for.
* `xipReads_iff`: reads from the start on return these pieces if and only if none of them asks for
  more than what is left of the value, but not for more than all of it.
-/

namespace Tudu.Xipfs

open Bytes (Memory)
open Flash

/-- What a call finds in its local variables. -/
structure Stack where
  sector : SectorMeta
  env : EnvMeta

/-- What `ef_get_env_stream` does: the number that it returns, `*saved_value_len` if it is written,
where it reads the flash, and the bytes. -/
structure Stream where
  readLen : Nat
  savedValueLen : Option Nat
  addr : Option Nat
  buf : List UInt8

def efGetEnvStream (n : Nat) (initOk : Bool) (fl : Memory) (key : List UInt8) (offset bufLen : Nat)
    (stack : Stack) : Option (Stream × Memory) :=
  if initOk = false then some (⟨0, none, none, []⟩, fl)
  else
    (findEnv n fl key stack.sector stack.env).map fun r =>
      if r.1 then
        let readLen := if r.2.1.valueLen < bufLen then sub32 r.2.1.valueLen offset else bufLen
        let addr := add32 r.2.1.value offset
        (⟨readLen, some r.2.1.valueLen, some addr, efPortRead r.2.2 addr readLen⟩, r.2.2)
      else (⟨0, none, none, []⟩, r.2.2)

/-- The fields of a `struct dfs_fd` that the file system reads, `pos` by its 32 bits. -/
structure XipFd where
  path : List UInt8
  pos : Nat

structure Piece where
  ret : Int
  addr : Option Nat
  buf : List UInt8
  deriving DecidableEq

def dfsXipfsRead (n : Nat) (initOk : Bool) (fl : Memory) (fd : XipFd) (len : Nat) (stack : Stack) :
    Option (Piece × XipFd × Memory) :=
  (efGetEnvStream n initOk fl (fd.path.drop 1) fd.pos len stack).map fun r =>
    (⟨int32 r.1.readLen, r.1.addr, r.1.buf⟩, { fd with pos := add32 fd.pos r.1.readLen }, r.2)

structure ReadCall where
  len : Nat
  stack : Stack

/-- Reads of one descriptor, one after the other. -/
def xipReads (n : Nat) (initOk : Bool) : Memory → XipFd → List ReadCall → Option (List Piece)
  | _, _, [] => some []
  | fl, fd, c :: cs => do
    let r ← dfsXipfsRead n initOk fl fd c.len c.stack
    let rest ← xipReads n initOk r.2.2 r.2.1 cs
    some (r.1 :: rest)

/-! ## The value in pieces -/

/-- The value `v` at the address `a`, in pieces of these lengths. -/
def pieces : Nat → List UInt8 → List Nat → List Piece
  | _, _, [] => []
  | a, v, c :: cs =>
    ⟨(min c v.length : Nat), some a, v.take c⟩ :: pieces (a + min c v.length) (v.drop c) cs

/-- The flash has the value `v` of `key` at `a`, whatever the local variables of a search. -/
structure Stored (n : Nat) (fl : Memory) (key : List UInt8) (a : Nat) (v : List UInt8) : Prop where
  found : ∀ s : Stack, ∃ env, findEnv n fl key s.sector s.env = some (true, env, fl) ∧
    env.value = a ∧ env.valueLen = v.length
  bytes : efPortRead fl a v.length = v
  inside : a + v.length ≤ envStartAddr + envAreaSize

variable {n a : Nat} {fl : Memory} {key v path : List UInt8} {cs : List ReadCall}

/-- The pieces are the value, as far as they go. -/
theorem pieces_flatMap (a : Nat) (v : List UInt8) (cs : List Nat) :
    (pieces a v cs).flatMap Piece.buf = v.take cs.sum := by
  induction cs generalizing a v with
  | nil => simp [pieces]
  | cons c cs ih =>
    rw [pieces, List.flatMap_cons, ih, List.sum_cons, List.take_add]

/-- A piece is in the value, and its length is what the call returns. -/
theorem pieces_inside {cs : List Nat} {p : Piece} (h : p ∈ pieces a v cs) :
    p.ret = p.buf.length ∧ ∃ b, p.addr = some b ∧ a ≤ b ∧ b + p.buf.length ≤ a + v.length := by
  induction cs generalizing a v with
  | nil => cases h
  | cons c cs ih =>
    rcases List.mem_cons.mp h with rfl | h
    · refine ⟨?_, a, rfl, Nat.le_refl a, ?_⟩
      · rw [List.length_take]
      · rw [List.length_take]
        omega
    · obtain ⟨hret, b, hb, h1, h2⟩ := ih h
      rw [List.length_drop] at h2
      exact ⟨hret, b, hb, by omega, by omega⟩

theorem efPortRead_slice {p k : Nat} (h : efPortRead fl a v.length = v) (hk : p + k ≤ v.length) :
    efPortRead fl (a + p) k = (v.drop p).take k := by
  apply List.ext_getElem?
  intro i
  have hi : (efPortRead fl a v.length)[p + i]? = v[p + i]? := by rw [h]
  unfold efPortRead at hi ⊢
  rw [List.getElem?_map] at hi ⊢
  rw [List.getElem?_take, List.getElem?_drop]
  by_cases hik : i < k
  · rw [if_pos hik, ← hi, List.getElem?_range hik, List.getElem?_range (by omega)]
    simp [Nat.add_assoc]
  · rw [if_neg hik, List.getElem?_eq_none (by simpa using hik)]
    rfl

/-- One read at a position in the value. -/
theorem dfsXipfsRead_eq {p len : Nat} (h : Stored n fl key a v) (hpath : path.drop 1 = key)
    (hp : p ≤ v.length) (stack : Stack) :
    dfsXipfsRead n true fl ⟨path, p⟩ len stack =
      let k := if v.length < len then v.length - p else len
      some (⟨int32 k, some (a + p), efPortRead fl (a + p) k⟩, ⟨path, add32 p k⟩, fl) := by
  have harea : envStartAddr + envAreaSize = 49152 := rfl
  obtain ⟨env, hf, ha, hlen⟩ := h.found stack
  have hin := h.inside
  have haddr : add32 a p = a + p := add32_of_lt (by omega)
  unfold dfsXipfsRead efGetEnvStream
  rw [if_neg (by decide), hpath, hf]
  simp only [Option.map_some, if_true, ha, hlen, haddr, sub32_of_le hp]

/-- No read asks for more than what is left behind `p`, but not for more than the whole value. -/
def Clamped (size p : Nat) (cs : List ReadCall) : Prop :=
  ∀ pre c post, cs = pre ++ c :: post →
    size < c.len ∨ p + (pre.map ReadCall.len).sum + c.len ≤ size

theorem clamped_cons {size p : Nat} {c : ReadCall} :
    Clamped size p (c :: cs) ↔ (size < c.len ∨ p + c.len ≤ size) ∧ Clamped size (p + c.len) cs := by
  constructor
  · intro h
    refine ⟨h [] c cs rfl, fun pre d post hd => ?_⟩
    have hd' := h (c :: pre) d post (by rw [hd]; rfl)
    rwa [List.map_cons, List.sum_cons, ← Nat.add_assoc] at hd'
  · rintro ⟨hc, h⟩ pre d post hd
    cases pre with
    | nil =>
      cases hd
      exact hc
    | cons b pre =>
      cases hd
      rw [List.map_cons, List.sum_cons, ← Nat.add_assoc]
      exact h pre d post rfl

/-- Behind the end, all that counts is that a read asks for more than the whole value. -/
theorem clamped_end {size p q : Nat} (hpos : ∀ c ∈ cs, 0 < c.len) (hp : size ≤ p) (hq : size ≤ q) :
    Clamped size p cs ↔ Clamped size q cs := by
  have h : ∀ p q, size ≤ p → Clamped size p cs → Clamped size q cs := by
    intro p q hp h pre c post hc
    have hc0 := hpos c (by rw [hc]; exact List.mem_append_right _ List.mem_cons_self)
    have hp' := h pre c post hc
    left
    omega
  exact ⟨h p q hp, h q p hq⟩

theorem xipReads_iff_from {p : Nat} (h : Stored n fl key a v) (hpath : path.drop 1 = key)
    (hp : p ≤ v.length) (hc : ∀ c ∈ cs, 0 < c.len ∧ c.len < 2 ^ 32) :
    xipReads n true fl ⟨path, p⟩ cs = some (pieces (a + p) (v.drop p) (cs.map ReadCall.len)) ↔
      Clamped v.length p cs := by
  have hin := h.inside
  have harea : envStartAddr + envAreaSize = 49152 := rfl
  induction cs generalizing p with
  | nil => exact ⟨fun _ pre c post hd => absurd hd (by simp), fun _ => rfl⟩
  | cons c cs ih =>
    obtain ⟨hpos, hlt⟩ := hc c List.mem_cons_self
    have hrest := fun d hd => hc d (List.mem_cons_of_mem _ hd)
    rw [clamped_cons]
    unfold xipReads
    rw [dfsXipfsRead_eq h hpath hp]
    simp only [Option.bind_eq_bind, Option.bind_some, List.map_cons, pieces, List.length_drop,
      List.drop_drop]
    by_cases hfit : v.length < c.len ∨ p + c.len ≤ v.length
    · -- the number of bytes is what is left, or what is asked for
      have hk : (if v.length < c.len then v.length - p else c.len) = min c.len (v.length - p) := by
        split <;> omega
      have hend : p + min c.len (v.length - p) ≤ v.length := by omega
      have hbuf : efPortRead fl (a + p) (min c.len (v.length - p)) = _ :=
        efPortRead_slice h.bytes hend
      have htake : (v.drop p).take (min c.len (v.length - p)) = (v.drop p).take c.len := by
        rw [← List.length_drop, ← List.take_take, List.take_length]
      have hret : int32 ((min c.len (v.length - p) : Nat) : Int) =
          (min c.len (v.length - p) : Nat) := by
        unfold int32
        rw [Int.bmod_eq_of_le]
        · omega
        · omega
      have hdrop : v.drop (p + c.len) = v.drop (p + min c.len (v.length - p)) := by
        rcases Nat.le_total c.len (v.length - p) with hle | hle
        · rw [Nat.min_eq_left hle]
        · rw [Nat.min_eq_right hle, List.drop_eq_nil_of_le (by omega),
            List.drop_eq_nil_of_le (by omega)]
      have hnext : Clamped v.length (p + c.len) cs ↔
          Clamped v.length (p + min c.len (v.length - p)) cs := by
        rcases Nat.le_total c.len (v.length - p) with hle | hle
        · rw [Nat.min_eq_left hle]
        · exact clamped_end (fun d hd => (hrest d hd).1) (by omega) (by omega)
      have hrun := ih hend hrest
      rw [hk, add32_of_lt (by omega), hbuf, htake, hret, hnext, hdrop, Nat.add_assoc]
      refine Iff.trans ?_ (and_congr_right fun _ => hrun)
      constructor
      · intro hx
        obtain ⟨rest, hr, he⟩ := Option.bind_eq_some_iff.mp hx
        rw [hr]
        exact ⟨hfit, congrArg some (List.cons.inj (Option.some.inj he)).2⟩
      · rintro ⟨-, hx⟩
        rw [hx]
        simp
    · -- the call returns all that is asked for
      obtain ⟨h1, h2⟩ := not_or.mp hfit
      refine ⟨fun hx => ?_, fun hx => absurd hx.1 hfit⟩
      obtain ⟨rest, -, he⟩ := Option.bind_eq_some_iff.mp hx
      have hhead := (List.cons.inj (Option.some.inj he)).1
      have hlen := congrArg (fun q => q.buf.length) hhead
      simp only [if_neg h1, efPortRead, List.length_map, List.length_range, List.length_take,
        List.length_drop] at hlen
      omega

/-- The value of an ENV in use is stored, if the names before it differ from its name. -/
theorem stored_of_area {l : List Sector} {e : Env} {pre post : List (Nat × Env)} (hl : Area fl l)
    (hn : envAreaSize ≤ n) (hpost : envsOf l = pre ++ (a, e) :: post) (hw : e.status = .write)
    (hname : e.name.length < 256) (h0 : 0 ∉ e.name)
    (hpre : ∀ x ∈ pre, x.2.status = .write → Differ x.2.name e.name) :
    Stored n fl e.name (a + envHdrDataSize + e.name.length) e.value := by
  have hmem : (a, e) ∈ envsOf l := by
    rw [hpost]
    exact List.mem_append_right _ List.mem_cons_self
  obtain ⟨x, hx, hx'⟩ := List.mem_flatMap.mp hmem
  have hb := Tiling.place_bound hx
  have hb' := Tiling.place_bound hx'
  have hfits := x.2.used_le
  have htotal := hl.total
  have hused : x.2.used = Tiling.total Env.len x.2.envs := rfl
  have hsize : e.len = envHdrDataSize + e.name.length + e.value.length := rfl
  refine ⟨fun s => ?_, ((hl.sectors x hx).envs _ hx').value, by simp only at hb'; omega⟩
  obtain ⟨rest, hf⟩ := findEnv_eq hl hn hpost hw hname h0 hpre s.sector s.env
  exact ⟨_, hf, rfl, rfl⟩

theorem one_stored : Stored envAreaSize oneFlash [0x61] 41 [1, 2, 3] :=
  stored_of_area oneFlash_area (Nat.le_refl _) (show _ = [] ++ (16, oneEnv) :: [] from rfl) rfl
    (by decide) (by decide) fun x hx => by cases hx

def someStack : Stack :=
  ⟨⟨false, .unused, .unused, 0, 0, 0, 0, 0⟩, .fresh⟩

end Tudu.Xipfs
