/-
# The VFS layer gives back what it takes

Every call of the VFS layer holds references while it runs: to the vnode that a name starts from, to
the directory that it leads to, to the file.  This module follows them.  A piece of code MOVES the
counters: `Moved s s' d` says that from `s` to `s'` the counters of each vnode changed by `d`, a
reference count and an open count for every vnode.  Moves add up (`Moved.trans`), so that the effect
of a call is the sum of the effects of its pieces, and what has to be shown at the end of each way
out is that the sum is what it should be.

The file systems are only assumed to keep to the contract of `vnode.h` and `fs.h` (`Lawful`): a
name lookup, `VOP_CREAT` and `FSOP_GETROOT` hand back one new reference, or fail and hand back none,
and no other operation changes a count.

One thing can go wrong that the VFS layer does not undo.  When the last reference is dropped and
`VOP_RECLAIM` fails, `vnode_decref` prints a warning and the vnode stays, with its reference count
at 1.  So the counters are compared up to the warnings printed: `balance` takes them off the
reference count.
-/
import Mathlib.Algebra.Group.Prod
import Mathlib.Algebra.Order.Group.Int
import Mathlib.Tactic.Abel
import Os161.Lib.Run
import Os161.Vfs

namespace Os161

open Function List Prog.Wp

namespace VnodeOps

/-! ## 1. Amounts -/

section Amounts

variable {ν : Type} {d e : ν → ℤ × ℤ} {v : ν}

/-- There is a reference for every open: what somebody may hold. -/
def Backing (d : ν → ℤ × ℤ) : Prop := ∀ v, (d v).2 ≤ (d v).1

/-- There is a reference to `v` that no open needs. -/
def Spare (d : ν → ℤ × ℤ) (v : ν) : Prop := (d v).2 < (d v).1

theorem backing_zero : Backing (0 : ν → ℤ × ℤ) := fun _ => le_rfl

theorem Backing.add (hd : Backing d) (he : Backing e) : Backing (d + e) :=
  fun v => add_le_add (hd v) (he v)

theorem Spare.add_backing (hd : Spare d v) (he : Backing e) :
    Spare (d + e) v := add_lt_add_of_lt_of_le hd (he v)

theorem Backing.add_spare (hd : Backing d) (he : Spare e v) :
    Spare (d + e) v := add_lt_add_of_le_of_lt (hd v) he

variable [DecidableEq ν]

/-- One reference to `v`. -/
def oneRef (v : ν) : ν → ℤ × ℤ := Pi.single v (1, 0)

/-- One open of `v`. -/
def oneOpen (v : ν) : ν → ℤ × ℤ := Pi.single v (0, 1)

@[simp] theorem oneRef_self (v : ν) : oneRef v v = (1, 0) := Pi.single_eq_same _ _

@[simp] theorem oneOpen_self (v : ν) : oneOpen v v = (0, 1) := Pi.single_eq_same _ _

theorem oneRef_of_ne {v w : ν} (h : w ≠ v) : oneRef v w = 0 := Pi.single_eq_of_ne h _

theorem oneOpen_of_ne {v w : ν} (h : w ≠ v) : oneOpen v w = 0 := Pi.single_eq_of_ne h _

/-- The reference of a current directory. -/
def dirRef (cwd : Option ν) : ν → ℤ × ℤ := cwd.elim 0 oneRef

@[simp] theorem dirRef_none : dirRef (none : Option ν) = 0 := rfl

@[simp] theorem dirRef_some (v : ν) : dirRef (some v) = oneRef v := rfl

theorem dirRef_apply (cwd : Option ν) (v : ν) :
    dirRef cwd v = (if cwd = some v then 1 else 0, 0) := by
  cases cwd with
  | none => rfl
  | some w =>
    rcases eq_or_ne v w with rfl | hne
    · simp [dirRef]
    · rw [if_neg fun h => hne (Option.some.inj h).symm]
      exact oneRef_of_ne hne

theorem backing_oneRef (v : ν) : Backing (oneRef v) := by
  intro w
  rcases eq_or_ne w v with rfl | hne
  · simp
  · rw [oneRef_of_ne hne]
    exact le_rfl

theorem backing_oneRef_add_oneOpen (v : ν) : Backing (oneRef v + oneOpen v) := by
  intro w
  rcases eq_or_ne w v with rfl | hne
  · simp
  · simp [oneRef_of_ne hne, oneOpen_of_ne hne]

theorem spare_oneRef (v : ν) : Spare (oneRef v) v := by simp [Spare]

end Amounts

variable {μ ν φ α β : Type} (ops : VnodeOps μ ν φ)

/-! ## 2. Moves -/

/-- The operation changes no counter. -/
def Neutral (p : Prop) (m : Prog Errno μ α) (mem : μ) : Prop :=
  Wp p m (fun _ mem' => ops.counts mem' = ops.counts mem)
    (fun _ mem' => ops.counts mem' = ops.counts mem) mem

/-- The operation, on a uio, changes no counter. -/
def NeutralUio (p : Prop) (m : Prog Errno (μ × Uio) α) (mem : μ) : Prop :=
  ∀ u, Wp p m (fun _ t => ops.counts t.1 = ops.counts mem)
    (fun _ t => ops.counts t.1 = ops.counts mem) (mem, u)

/-- The vnode is referenced, as `vnode_check` requires. -/
def Live (mem : μ) (v : ν) : Prop := 0 < (ops.counts mem v).vnRefcount

/-- The counters of each vnode; a reference that `VOP_RECLAIM` failed to take away is not
counted. -/
def balance (s : Vfs μ ν φ) (v : ν) : ℤ × ℤ :=
  ((ops.countsOf s v).vnRefcount - s.reclaimWarnings v, (ops.countsOf s v).vnOpencount)

/-- From `s` to `s'` the counters changed by `d`, and nothing else did. -/
structure Moved (s s' : Vfs μ ν φ) (d : ν → ℤ × ℤ) : Prop where
  balance : ops.balance s' = ops.balance s + d
  warned : ∀ v, s.reclaimWarnings v ≤ s'.reclaimWarnings v
  cwd : s'.cwd = s.cwd
  bootfs : s'.bootfsVnode = s.bootfsVnode
  knowndevs : s'.knowndevs = s.knowndevs

/-- The program moves the counters by `D a` if it returns `a`, and by `e` if it fails. -/
def Moves (p : Prop) (m : VfsProg μ ν φ α) (D : α → ν → ℤ × ℤ) (e : ν → ℤ × ℤ)
    (s : Vfs μ ν φ) : Prop :=
  Wp p m (fun a s' => ops.Moved s s' (D a)) (fun _ s' => ops.Moved s s' e) s

/-- The program does not fail, and moves the counters by `d`. -/
def Settles (p : Prop) (m : VfsProg μ ν φ Unit) (d : ν → ℤ × ℤ) (s : Vfs μ ν φ) : Prop :=
  Wp p m (fun _ s' => ops.Moved s s' d) (fun _ _ => False) s

variable {ops} {p : Prop} {s s' s'' : Vfs μ ν φ} {v w : ν} {d e : ν → ℤ × ℤ}

theorem Moved.refl : ops.Moved s s 0 :=
  ⟨(add_zero _).symm, fun _ => le_rfl, rfl, rfl, rfl⟩

section

variable (h : ops.Moved s s' d)

include h

theorem Moved.trans (h' : ops.Moved s' s'' e) : ops.Moved s s'' (d + e) where
  balance := by rw [h'.balance, h.balance, add_assoc]
  warned v := (h.warned v).trans (h'.warned v)
  cwd := h'.cwd.trans h.cwd
  bootfs := h'.bootfs.trans h.bootfs
  knowndevs := h'.knowndevs.trans h.knowndevs

theorem Moved.setCwd (c : Option ν) : ops.Moved { s with cwd := c } { s' with cwd := c } d :=
  { h with cwd := rfl }

theorem Moved.counts (v : ν) : ((ops.countsOf s' v).vnRefcount : ℤ) + s.reclaimWarnings v =
        (ops.countsOf s v).vnRefcount + s'.reclaimWarnings v + (d v).1 ∧
      ((ops.countsOf s' v).vnOpencount : ℤ) = (ops.countsOf s v).vnOpencount + (d v).2 := by
  have hb := congrFun h.balance v
  have h1 := congrArg Prod.fst hb
  have h2 := congrArg Prod.snd hb
  simp only [VnodeOps.balance, Pi.add_apply, Prod.fst_add, Prod.snd_add] at h1 h2
  exact ⟨by omega, h2⟩

/-- A move and then a program that makes up the difference. -/
theorem Moved.andThen {m : VfsProg μ ν φ β} {F : β → ν → ℤ × ℤ}
    (hm : ops.Moves p m (fun b => F b - d) (e - d) s') :
    Wp p m (fun b s'' => ops.Moved s s'' (F b)) (fun _ s'' => ops.Moved s s'' e) s' := by
  refine imp hm (fun b s'' h' => ?_) fun _ s'' h' => ?_
  · simpa using h.trans h'
  · simpa using h.trans h'

end

variable {D : α → ν → ℤ × ℤ} {F : β → ν → ℤ × ℤ} {m : VfsProg μ ν φ α}

theorem Moves.bind {f : α → VfsProg μ ν φ β} (hm : ops.Moves p m D e s)
    (hf : ∀ a s', ops.Moved s s' (D a) → ops.Moves p (f a) (fun b => F b - D a) (e - D a) s') :
    ops.Moves p (m >>= f) F e s := by
  rw [Moves, wp_bind]
  exact imp hm (fun a s' h => h.andThen (hf a s' h)) fun _ _ => id

theorem Settles.bind {m : VfsProg μ ν φ Unit} {f : Unit → VfsProg μ ν φ β}
    (hm : ops.Settles p m d s)
    (hf : ∀ s', ops.Moved s s' d → ops.Moves p (f ()) (fun b => F b - d) (e - d) s') :
    ops.Moves p (m >>= f) F e s :=
  Moves.bind (D := fun _ => d) (imp hm (fun _ _ => id) fun _ _ => False.elim) fun _ => hf

theorem Moves.attempt_bind {f : Except Errno α → VfsProg μ ν φ β} (hm : ops.Moves p m D d s)
    (hok : ∀ a s', ops.Moved s s' (D a) → ops.Moves p (f (.ok a)) (fun b => F b - D a) (e - D a) s')
    (herr : ∀ err s', ops.Moved s s' d →
      ops.Moves p (f (.error err)) (fun b => F b - d) (e - d) s') :
    ops.Moves p (attempt m >>= f) F e s := by
  rw [Moves, wp_bind, wp_attempt]
  exact imp hm (fun a s' h => h.andThen (hok a s' h)) fun err s' h => h.andThen (herr err s' h)

theorem Moves.pure {a : α} (h : D a = 0) : ops.Moves p (Pure.pure a : VfsProg μ ν φ α) D e s := by
  refine wp_pure.mpr ?_
  rw [h]
  exact Moved.refl

theorem Moves.fail {err : Errno} (h : e = 0) : ops.Moves p (fail err : VfsProg μ ν φ α) D e s := by
  refine wp_fail.mpr ?_
  rw [h]
  exact Moved.refl

theorem counts_moved {mem' : μ} (h : ops.counts mem' = ops.counts s.mem) :
    ops.Moved s { s with mem := mem' } 0 where
  balance := by
    funext v
    simp only [VnodeOps.balance, countsOf, h, add_zero]
  warned _ := le_rfl
  cwd := rfl
  bootfs := rfl
  knowndevs := rfl

variable {m : Prog Errno μ α}

theorem Neutral.moves (h : ops.Neutral p m s.mem) : ops.Moves p (onMem m) (fun _ => 0) 0 s := by
  rw [Moves, onMem, wp_zoom]
  exact h.imp (fun _ _ => counts_moved) fun _ _ => counts_moved

theorem wp_vnodeCheck {Q : Unit → Vfs μ ν φ → Prop} {E : Errno → Vfs μ ν φ → Prop}
    (hv : ops.Live s.mem v) : Wp p (ops.vnodeCheck v) Q E s ↔ Q () s := by
  rw [vnodeCheck, wp_bind, wp_get]
  exact wp_assert_of hv

theorem Moves.vop (hv : ops.Live s.mem v)
    (h : ops.Moves p (onMem m) D e s) : ops.Moves p (ops.vop v m) D e s := by
  rw [Moves, VnodeOps.vop, wp_bind, wp_vnodeCheck hv]
  exact h

variable (ops) in
/-- A call with a `struct uio` that keeps the counters. -/
abbrev MovesUio (p : Prop) (m : Prog Errno (Vfs μ ν φ × Uio) Unit) (s : Vfs μ ν φ) (u : Uio) :
    Prop :=
  Wp p m (fun _ t => ops.Moved s t.1 0) (fun _ t => ops.Moved s t.1 0) (s, u)

theorem NeutralUio.moved {m : Prog Errno (μ × Uio) Unit} {u : Uio} (h : ops.NeutralUio p m s.mem) :
    ops.MovesUio p (onMemUio m) s u := by
  rw [MovesUio, onMemUio, wp_zoom]
  exact (h u).imp (fun _ _ => counts_moved) fun _ _ => counts_moved

variable (ops) [DecidableEq ν]

/-! ## 3. The contract of the file systems -/

/-- The counters, with one more reference to `v`. -/
def plusRef (mem : μ) (v : ν) : ν → Vnode :=
  update (ops.counts mem) v (vnodeIncref (ops.counts mem v))

/-- The operation hands back a new reference to the vnode `vn`, or fails and changes no counter. -/
def HandsBack (p : Prop) (m : Prog Errno μ α) (vn : α → ν) (mem : μ) : Prop :=
  Wp p m (fun a mem' => ops.counts mem' = ops.plusRef mem (vn a))
    (fun _ mem' => ops.counts mem' = ops.counts mem) mem

/-- **The contract.**  `p` is what is known when an operation stops the machine. -/
structure Lawful (p : Prop) : Prop where
  counts_setCounts : ∀ mem v c, ops.counts (ops.setCounts mem v c) = update (ops.counts mem) v c
  vopOpen : ∀ v flags mem, ops.Live mem v → ops.Neutral p (ops.vopOpen v flags) mem
  vopClose : ∀ v mem, ops.Live mem v → ops.Neutral p (ops.vopClose v) mem
  /-- Asked to reclaim a vnode with one reference and no opens, the file system destroys it, or
  fails. -/
  vopReclaim : ∀ v mem, ops.counts mem v = ⟨1, 0⟩ → Wp p (ops.vopReclaim v)
      (fun _ mem' => ops.counts mem' = update (ops.counts mem) v ⟨0, 0⟩)
      (fun e mem' => e ≠ .ebusy ∧ ops.counts mem' = ops.counts mem) mem
  vopReadlink : ∀ v mem, ops.Live mem v → ops.NeutralUio p (ops.vopReadlink v) mem
  /-- A directory belongs to a file system. -/
  vopGettype : ∀ v mem, ops.Live mem v → Wp p (ops.vopGettype v)
      (fun t mem' => ops.counts mem' = ops.counts mem ∧ (t = .ifdir → (ops.vnFs v).isSome))
      (fun _ mem' => ops.counts mem' = ops.counts mem) mem
  vopTruncate : ∀ v len mem, ops.Live mem v → ops.Neutral p (ops.vopTruncate v len) mem
  vopNamefile : ∀ v mem, ops.Live mem v → ops.NeutralUio p (ops.vopNamefile v) mem
  vopCreat : ∀ v name excl mode mem, ops.Live mem v →
    ops.HandsBack p (ops.vopCreat v name excl mode) id mem
  vopSymlink : ∀ v name contents mem, ops.Live mem v →
    ops.Neutral p (ops.vopSymlink v name contents) mem
  vopMkdir : ∀ v name mode mem, ops.Live mem v → ops.Neutral p (ops.vopMkdir v name mode) mem
  vopLink : ∀ v name file mem, ops.Live mem v → ops.Live mem file →
    ops.Neutral p (ops.vopLink v name file) mem
  vopRemove : ∀ v name mem, ops.Live mem v → ops.Neutral p (ops.vopRemove v name) mem
  vopRmdir : ∀ v name mem, ops.Live mem v → ops.Neutral p (ops.vopRmdir v name) mem
  vopRename : ∀ v₁ name₁ v₂ name₂ mem, ops.Live mem v₁ → ops.Live mem v₂ →
    ops.Neutral p (ops.vopRename v₁ name₁ v₂ name₂) mem
  vopLookup : ∀ v path mem, ops.Live mem v → ops.HandsBack p (ops.vopLookup v path) id mem
  vopLookparent : ∀ v path buflen mem, ops.Live mem v →
    ops.HandsBack p (ops.vopLookparent v path buflen) Prod.fst mem
  fsGetroot : ∀ fs mem, Wp p (ops.fsGetroot fs)
    (fun v mem' => ops.counts mem' = ops.plusRef mem v) (fun _ _ => False) mem

/-- A state that the calls can be made in: opens and the current directory have their references,
the current directory is no device, and the table of devices is in order (every file system is in
it, and what is no file system has a device). -/
structure Ok (s : Vfs μ ν φ) : Prop where
  opens : ∀ v, (ops.countsOf s v).vnOpencount + (if s.cwd = some v then 1 else 0) ≤
    (ops.countsOf s v).vnRefcount
  cwdFs : ∀ v, s.cwd = some v → (ops.vnFs v).isSome
  mounted : ∀ fs, ∃ kd ∈ s.knowndevs, kd.kdFs = some fs
  devices : ∀ kd ∈ s.knowndevs, kd.kdDevice = false → kd.kdFs.isSome ∧ kd.kdRawname = none

variable {ops}

theorem Moved.ok (h : ops.Moved s s' d) (hs : ops.Ok s) (hd : Backing d) : ops.Ok s' where
  opens v := by
    obtain ⟨hr, ho⟩ := h.counts v
    have hs := hs.opens v
    have hd := hd v
    have hw := h.warned v
    rw [h.cwd]
    omega
  cwdFs v hv := hs.cwdFs v (h.cwd ▸ hv)
  mounted := by
    rw [h.knowndevs]
    exact hs.mounted
  devices := by
    rw [h.knowndevs]
    exact hs.devices

theorem Moved.spare (h : ops.Moved s s' d) (hs : ops.Ok s) (hd : Spare d v) :
    (ops.countsOf s' v).vnOpencount < (ops.countsOf s' v).vnRefcount := by
  obtain ⟨hr, ho⟩ := h.counts v
  have hs := hs.opens v
  have hw := h.warned v
  unfold Spare at hd
  omega

/-- An open that a call holds is there, ... -/
theorem Moved.opened (h : ops.Moved s s' (oneRef v + oneOpen v)) :
    0 < (ops.countsOf s' v).vnOpencount := by
  obtain ⟨-, ho⟩ := h.counts v
  simp only [Pi.add_apply, oneRef_self, oneOpen_self, Prod.snd_add] at ho
  omega

/-- ... and so is the reference that it needs, ... -/
theorem Ok.live_of_opened (hs : ops.Ok s) (hv : 0 < (ops.countsOf s v).vnOpencount) :
    ops.Live s.mem v :=
  hv.trans_le (Nat.le_of_add_right_le (hs.opens v))

/-- ... which is left over when the open is gone. -/
theorem Moved.closed (h : ops.Moved s s' (- oneOpen v)) (hs : ops.Ok s) :
    (ops.countsOf s' v).vnOpencount < (ops.countsOf s' v).vnRefcount := by
  obtain ⟨hr, ho⟩ := h.counts v
  have hs := hs.opens v
  have hw := h.warned v
  simp only [Pi.neg_apply, oneOpen_self, Prod.fst_neg, Prod.snd_neg] at hr ho
  omega

theorem Ok.cwd_spare (hs : ops.Ok s) (hv : s.cwd = some v) :
    (ops.countsOf s v).vnOpencount < (ops.countsOf s v).vnRefcount := by
  have := hs.opens v
  rw [if_pos hv] at this
  exact this

theorem Ok.volumeName_eq_some [DecidableEq φ] (hs : ops.Ok s) (fs : φ) :
    ∃ name, ops.volumeName fs s = some name := by
  obtain ⟨kd, hkd, hfs⟩ := hs.mounted fs
  have hdev : (vfsGetdevname fs s).isSome := by
    rw [vfsGetdevname, Option.isSome_map, find?_isSome]
    exact ⟨kd, hkd, decide_eq_true hfs⟩
  refine Option.isSome_iff_exists.mp ?_
  rw [volumeName, Option.isSome_or, hdev, Bool.or_true]

/-! ## 4. The pieces -/

theorem update_moved {mem' : μ} {c : Vnode} (h : ops.counts mem' = update (ops.counts s.mem) v c)
    (hr : (c.vnRefcount : ℤ) = (ops.countsOf s v).vnRefcount + (d v).1)
    (ho : (c.vnOpencount : ℤ) = (ops.countsOf s v).vnOpencount + (d v).2)
    (hd : ∀ w, w ≠ v → d w = 0) : ops.Moved s { s with mem := mem' } d where
  balance := by
    funext w
    simp only [VnodeOps.balance, countsOf, h, Pi.add_apply]
    rcases eq_or_ne w v with rfl | hne
    · rw [update_self, hr, ho]
      exact Prod.ext (sub_add_eq_add_sub _ _ _).symm rfl
    · rw [update_of_ne hne, hd w hne, add_zero]
  warned _ := le_rfl
  cwd := rfl
  bootfs := rfl
  knowndevs := rfl

theorem plusRef_moved {mem' : μ} (h : ops.counts mem' = ops.plusRef s.mem v) :
    ops.Moved s { s with mem := mem' } (oneRef v) :=
  update_moved h (by simp [vnodeIncref, countsOf]) (by simp [vnodeIncref, countsOf])
    fun _ => oneRef_of_ne

theorem HandsBack.moves {vn : α → ν} (h : ops.HandsBack p m vn s.mem) :
    ops.Moves p (onMem m) (fun a => oneRef (vn a)) 0 s := by
  rw [Moves, onMem, wp_zoom]
  exact h.imp (fun _ _ => plusRef_moved) fun _ _ => counts_moved

section Counters

variable (hl : ops.Lawful p)

include hl

theorem vopIncref_settles : ops.Settles p (ops.vopIncref v) (oneRef v) s := by
  rw [Settles, vopIncref, onCounts, onMem, wp_zoom, wp_zoom, wp_modify]
  exact plusRef_moved (hl.counts_setCounts _ _ _)

theorem vopIncopen_settles : ops.Settles p (ops.vopIncopen v) (oneOpen v) s := by
  rw [Settles, vopIncopen, onCounts, onMem, wp_zoom, wp_zoom, wp_modify]
  exact update_moved (hl.counts_setCounts _ _ _) (by simp [vnodeIncopen, countsOf])
    (by simp [vnodeIncopen, countsOf]) fun _ => oneOpen_of_ne

/-- The reclaim of a vnode takes its last reference away, or prints a warning. -/
theorem reclaimVnode_settles (hv : ops.countsOf s v = ⟨1, 0⟩) :
    ops.Settles p (ops.reclaimVnode v) (- oneRef v) s := by
  rw [Settles, reclaimVnode, wp_bind, wp_attempt, onMem, wp_zoom]
  refine (hl.vopReclaim v s.mem hv).imp (fun _ mem' h => ?_) fun err mem' h => ?_
  · exact wp_pure.mpr (update_moved h (by simp [hv]) (by simp [hv]) fun w hne => by
      rw [Pi.neg_apply, oneRef_of_ne hne, neg_zero])
  · -- the counters stay, and the warning is on record
    obtain ⟨hbusy, h⟩ := h
    simp only [if_neg hbusy, wp_modify]
    refine ⟨?_, fun w => ?_, rfl, rfl, rfl⟩
    · funext w
      simp only [VnodeOps.balance, countsOf, h, Pi.add_apply, Pi.neg_apply]
      rcases eq_or_ne w v with rfl | hne
      · rw [update_self, oneRef_self]
        refine Prod.ext ?_ ?_
        · simp only [Prod.fst_add, Prod.fst_neg]
          omega
        · simp
      · simp [hne, oneRef_of_ne hne]
    · show s.reclaimWarnings w ≤ update s.reclaimWarnings v _ w
      rcases eq_or_ne w v with rfl | hne
      · rw [update_self]
        exact Nat.le_succ _
      · rw [update_of_ne hne]

/-- **A reference is dropped.** -/
theorem vopDecref_settles (hv : (ops.countsOf s v).vnOpencount < (ops.countsOf s v).vnRefcount) :
    ops.Settles p (ops.vopDecref v) (- oneRef v) s := by
  rw [Settles, vopDecref, wp_bind, onCounts, onMem, wp_zoom, wp_zoom]
  refine (vnodeDecref_spec (Nat.zero_lt_of_lt hv)).post_ok fun doIt c h => ?_
  have hset := hl.counts_setCounts s.mem v c
  obtain ⟨hopen, ⟨rfl, hone, rfl⟩ | ⟨rfl, -, hless⟩⟩ := h
  · -- the last one
    have hsame : ops.counts (ops.setCounts s.mem v (ops.countsOf s v)) = ops.counts s.mem :=
      hset.trans (update_eq_self v _)
    have hv' : ops.countsOf s v = ⟨1, 0⟩ := by
      have h1 : (ops.countsOf s v).vnRefcount = 1 := hone
      have h0 : (ops.countsOf s v).vnOpencount = 0 := by omega
      rw [← h1, ← h0]
    refine post (reclaimVnode_settles hl ?_) fun _ s' h => ?_
    · exact (congrFun hsame v).trans hv'
    · simpa using (counts_moved hsame).trans h
  · rw [if_neg Bool.false_ne_true, wp_pure]
    have hless : c.vnRefcount + 1 = (ops.countsOf s v).vnRefcount := hless
    have hopen : c.vnOpencount = (ops.countsOf s v).vnOpencount := hopen
    refine update_moved hset ?_ ?_ fun w hne => ?_
    · simp [← hless]
    · simp [hopen]
    · rw [Pi.neg_apply, oneRef_of_ne hne, neg_zero]

/-- **An open is taken back.** -/
theorem vopDecopen_settles (hv : 0 < (ops.countsOf s v).vnOpencount)
    (hr : 0 < (ops.countsOf s v).vnRefcount) :
    ops.Settles p (ops.vopDecopen v) (- oneOpen v) s := by
  rw [Settles, vopDecopen, wp_bind, onCounts, onMem, wp_zoom, wp_zoom, vnodeDecopen,
    wp_bind, wp_get, wp_bind, wp_assert_of (by exact hv), wp_bind, wp_modify, wp_pure]
  set c : Vnode := { ops.counts s.mem v with vnOpencount := (ops.counts s.mem v).vnOpencount - 1 }
    with hc
  have hset := hl.counts_setCounts s.mem v c
  have hmoved : ops.Moved s { s with mem := ops.setCounts s.mem v c } (- oneOpen v) := by
    refine update_moved hset ?_ ?_ fun w hne => ?_
    · simp [hc, countsOf]
    · have hless : c.vnOpencount = (ops.countsOf s v).vnOpencount - 1 := rfl
      simp only [Pi.neg_apply, oneOpen_self, Prod.snd_neg]
      omega
    · rw [Pi.neg_apply, oneOpen_of_ne hne, neg_zero]
  have hlive : ops.Live (ops.setCounts s.mem v c) v := by
    rw [Live, hset, update_self]
    exact hr
  split_ifs
  · rw [closeVnode, wp_bind, wp_attempt]
    refine imp (Moves.vop hlive (hl.vopClose v _ hlive).moves) (fun _ s' h => ?_) fun _ s' h => ?_
    · exact wp_pure.mpr (by simpa using hmoved.trans h)
    · exact wp_pure.mpr (by simpa using hmoved.trans h)
  · exact wp_pure.mpr hmoved

end Counters

/-! ## 5. Names -/

section Names

theorem Moved.live (hv : ops.Moved s s' (oneRef v)) (hs : ops.Ok s) : ops.Live s'.mem v :=
  Nat.zero_lt_of_lt (hv.spare hs (spare_oneRef v))

variable (hl : ops.Lawful p)

include hl

/-- **What the current call holds is given back, whatever became of the operation.** -/
theorem giveBack_moves {m : VfsProg μ ν φ α} {D : α → ν → ℤ × ℤ} (hs : ops.Ok s)
    (hv : ops.Moved s s' (oneRef v)) (hD : ∀ a, Backing (D a)) (hm : ops.Moves p m D 0 s') :
    ops.Moves p (do
      let result ← attempt m
      ops.vopDecref v
      ofResult result) (fun a => D a - oneRef v) (- oneRef v) s' := by
  refine hm.attempt_bind (fun a t h => ?_) fun err t h => ?_
  · have hspare := (hv.trans h).spare hs ((spare_oneRef v).add_backing (hD a))
    exact (vopDecref_settles hl hspare).bind fun _ _ => Moves.pure (by abel)
  · have hspare := (hv.trans h).spare hs ((spare_oneRef v).add_backing backing_zero)
    exact (vopDecref_settles hl hspare).bind fun _ _ => Moves.fail (by abel)

/-- **`vfs_getcurdir`.** -/
theorem vfsGetcurdir_spec :
    Wp p ops.vfsGetcurdir (fun v s' => ops.Moved s s' (oneRef v) ∧ s.cwd = some v)
      (fun _ s' => ops.Moved s s' 0) s := by
  rw [vfsGetcurdir, wp_bind, wp_get]
  cases hcwd : s.cwd with
  | none => exact wp_fail.mpr Moved.refl
  | some v =>
    refine wp_bind.mpr (post_ok (vopIncref_settles hl) fun _ s' h => ?_)
    exact wp_pure.mpr ⟨h, rfl⟩

theorem vfsGetcurdir_moves : ops.Moves p ops.vfsGetcurdir oneRef 0 s :=
  post (vfsGetcurdir_spec hl) fun _ _ h => h.1

theorem getrootDevice_moves {kd : Knowndev ν φ} (hkd : kd.kdDevice = true) : ops.Moves p (do
      assert (kd.kdDevice = true)
      ops.vopIncref kd.kdVnode
      Pure.pure (some kd.kdVnode)) (fun r => r.elim 0 oneRef) 0 s := by
  rw [Moves, wp_bind, wp_assert]
  exact ⟨fun _ => (vopIncref_settles hl).bind fun _ _ => Moves.pure (sub_self _),
    fun hn => absurd hkd hn⟩

theorem fsGetroot_moves {fs : φ} : ops.Moves p (onMem (ops.fsGetroot fs)) oneRef e s := by
  rw [Moves, onMem, wp_zoom]
  exact (hl.fsGetroot fs s.mem).post_ok fun _ _ => plusRef_moved

variable {devname : CString}

theorem getrootEntry_moves {kd : Knowndev ν φ}
    (hkd : kd.kdDevice = false → kd.kdFs.isSome ∧ kd.kdRawname = none) :
    ops.Moves p (ops.getrootEntry devname kd) (fun r => r.elim 0 oneRef) 0 s := by
  have hdevice : kd.kdFs = none ∨ kd.kdRawname ≠ none → kd.kdDevice = true := by
    intro h
    by_contra hno
    obtain ⟨hfs, hraw⟩ := hkd (Bool.eq_false_iff.mpr hno)
    rcases h with h | h
    · rw [h] at hfs
      cases hfs
    · exact h hraw
  rw [Moves, getrootEntry, wp_bind, wp_get]
  cases hfs : kd.kdFs with
  | some fs =>
    dsimp only
    split_ifs with hname hraw
    · exact (fsGetroot_moves hl).bind fun v s' _ => Moves.pure (sub_self _)
    · exact getrootDevice_moves hl (hdevice (.inr (by rw [hraw]; exact Option.some_ne_none _)))
    · exact Moves.pure rfl
  | none =>
    dsimp only
    split_ifs with hmount hname
    · exact Moves.fail rfl
    · exact getrootDevice_moves hl (hdevice (.inl hfs))
    · exact Moves.pure rfl

theorem getrootLoop_moves (l : List (Knowndev ν φ))
    (hkd : ∀ kd ∈ l, kd.kdDevice = false → kd.kdFs.isSome ∧ kd.kdRawname = none)
    (s : Vfs μ ν φ) : ops.Moves p (ops.getrootLoop devname l) oneRef 0 s := by
  induction l generalizing s with
  | nil => exact Moves.fail rfl
  | cons kd rest ih =>
    refine (getrootEntry_moves hl (hkd kd mem_cons_self)).bind fun r s' _ => ?_
    cases r with
    | some v => exact Moves.pure (sub_self _)
    | none => simpa using ih (fun kd' h => hkd kd' (mem_cons_of_mem _ h)) s'

/-- **`vfs_getroot`.** -/
theorem vfsGetroot_moves (hs : ops.Ok s) : ops.Moves p (ops.vfsGetroot devname) oneRef 0 s := by
  rw [Moves, vfsGetroot, wp_bind, wp_get]
  exact getrootLoop_moves hl s.knowndevs hs.devices s

theorem getBootfs_moves : ops.Moves p ops.getBootfs oneRef 0 s := by
  rw [Moves, getBootfs, wp_bind, wp_get]
  cases s.bootfsVnode with
  | none => exact Moves.fail rfl
  | some v => exact (vopIncref_settles hl).bind fun _ _ => Moves.pure (sub_self _)

theorem getCurrentRoot_moves (hs : ops.Ok s) : ops.Moves p ops.getCurrentRoot oneRef 0 s := by
  refine (vfsGetcurdir_spec hl).bind fun vn t h => ?_
  obtain ⟨hvn, hcwd⟩ := h
  obtain ⟨fs, hfs⟩ := Option.isSome_iff_exists.mp (hs.cwdFs vn hcwd)
  rw [hfs]
  -- the root is held when the current directory is given back
  have hrest : ops.Moves p (do
      let startvn ← onMem (ops.fsGetroot fs)
      ops.vopDecref vn
      Pure.pure startvn) (fun r => oneRef r - oneRef vn) (0 - oneRef vn) t := by
    refine (fsGetroot_moves hl).bind fun r t' hr => ?_
    have hspare := (hvn.trans hr).spare hs ((spare_oneRef vn).add_backing (backing_oneRef r))
    exact (vopDecref_settles hl hspare).bind fun _ _ => Moves.pure (by abel)
  exact hvn.andThen hrest

/-- **`getdevice`** hands back one reference to the vnode that the path starts from. -/
theorem getdevice_moves (path : CString) (hs : ops.Ok s) :
    ops.Moves p (ops.getdevice path) (fun r => oneRef r.1) 0 s := by
  have hstart : ∀ (m : VfsProg μ ν φ ν) (rest : CString), ops.Moves p m oneRef 0 s → ops.Moves p (do
        let startvn ← m
        Pure.pure (startvn, rest)) (fun r => oneRef r.1) 0 s :=
    fun m rest hm => hm.bind fun v _ _ => Moves.pure (sub_self _)
  rw [getdevice]
  split
  · split_ifs
    · exact hstart _ _ (getBootfs_moves hl)
    · exact hstart _ _ (getCurrentRoot_moves hl hs)
  · split_ifs
    · exact hstart _ _ (vfsGetroot_moves hl hs)
    · exact hstart _ _ (vfsGetcurdir_moves hl)
  · exact hstart _ _ (vfsGetcurdir_moves hl)

/-- **`vfs_lookparent`** hands back one reference to the directory. -/
theorem vfsLookparent_moves (path : CString) (buflen : Nat) (hs : ops.Ok s) :
    ops.Moves p (ops.vfsLookparent path buflen) (fun r => oneRef r.1) 0 s := by
  refine (getdevice_moves hl path hs).bind fun r t h => ?_
  rw [zero_sub]
  refine giveBack_moves hl hs h (fun r => backing_oneRef r.1) ?_
  split_ifs
  · exact Moves.fail rfl
  · exact Moves.vop (h.live hs) (hl.vopLookparent r.1 _ buflen _ (h.live hs)).moves

/-- **`vfs_lookup`** hands back one reference to the vnode that the path names. -/
theorem vfsLookup_moves (path : CString) (hs : ops.Ok s) :
    ops.Moves p (ops.vfsLookup path) oneRef 0 s := by
  refine (getdevice_moves hl path hs).bind fun r t h => ?_
  dsimp only
  split_ifs
  · exact Moves.pure (sub_self _)
  · rw [zero_sub]
    exact giveBack_moves hl hs h backing_oneRef
      (Moves.vop (h.live hs) (hl.vopLookup r.1 _ _ (h.live hs)).moves)

end Names

/-! ## 6. The calls -/

section Calls

variable (hl : ops.Lawful p)

include hl

theorem openFind_moves (path : CString) (openflags : BitVec 32) (mode : Nat) (hs : ops.Ok s) :
    ops.Moves p (ops.openFind path openflags mode) oneRef 0 s := by
  rw [openFind]
  split_ifs
  · refine (vfsLookparent_moves hl path nameBuflen hs).bind fun r t h => ?_
    rw [zero_sub]
    exact giveBack_moves hl hs h backing_oneRef
      (Moves.vop (h.live hs) (hl.vopCreat r.1 _ _ _ _ (h.live hs)).moves)
  · exact vfsLookup_moves hl path hs

theorem openTruncate_moves {canwrite : Bool} (hv : ops.Live s.mem v) :
    ops.Moves p (ops.openTruncate v canwrite) (fun _ => 0) 0 s := by
  rw [openTruncate]
  split_ifs
  · exact Moves.vop hv (hl.vopTruncate v 0 _ hv).moves
  · exact Moves.fail rfl

theorem openVnode_moves (openflags : BitVec 32) (canwrite : Bool) (hs : ops.Ok s)
    (hv : ops.Moved s s' (oneRef v)) :
    ops.Moves p (ops.openVnode v openflags canwrite)
      (fun w => oneRef w + oneOpen w - oneRef v) (- oneRef v) s' := by
  refine Moves.attempt_bind (Moves.vop (hv.live hs) (hl.vopOpen v openflags _ (hv.live hs)).moves)
    (fun _ t h => ?_) fun err t h => ?_
  · refine (vopIncopen_settles hl).bind fun t₁ h1 => ?_
    have hopen : ops.Moved s t₁ (oneRef v + oneOpen v) := by
      simpa using (hv.trans h).trans h1
    have hok := hopen.ok hs (backing_oneRef_add_oneOpen v)
    have htrunc : ops.Moves p
        (if openflags &&& oTrunc ≠ 0 then ops.openTruncate v canwrite else Pure.pure ())
        (fun _ => 0) 0 t₁ := by
      split_ifs
      · exact openTruncate_moves hl (hok.live_of_opened hopen.opened)
      · exact Moves.pure rfl
    refine htrunc.attempt_bind (fun _ t₂ h2 => Moves.pure (by abel)) fun err t₂ h2 => ?_
    have hopen2 : ops.Moved s t₂ (oneRef v + oneOpen v) := by simpa using hopen.trans h2
    have hok2 := hopen2.ok hs (backing_oneRef_add_oneOpen v)
    refine (vopDecopen_settles hl hopen2.opened (hok2.live_of_opened hopen2.opened)).bind
      fun t₃ h3 => ?_
    exact (vopDecref_settles hl (h3.closed hok2)).bind fun _ _ => Moves.fail (by abel)
  · have hspare := (hv.trans h).spare hs ((spare_oneRef v).add_backing backing_zero)
    exact (vopDecref_settles hl hspare).bind fun _ _ => Moves.fail (by abel)

/-- **`vfs_open`** opens the vnode that it hands back a reference to, or changes nothing. -/
theorem vfsOpen_moves (path : CString) (openflags : BitVec 32) (mode : Nat) (hs : ops.Ok s) :
    ops.Moves p (ops.vfsOpen path openflags mode) (fun v => oneRef v + oneOpen v) 0 s := by
  rw [vfsOpen]
  split_ifs
  · exact Moves.fail rfl
  · refine (openFind_moves hl path openflags mode hs).bind fun v t h => ?_
    rw [zero_sub]
    exact openVnode_moves hl openflags _ hs h

/-- **`vfs_close`** takes one open and one reference away. -/
theorem vfsClose_moves (hs : ops.Ok s) (hv : 0 < (ops.countsOf s v).vnOpencount) :
    ops.Moves p (ops.vfsClose v) (fun _ => - (oneRef v + oneOpen v)) e s := by
  refine (vopDecopen_settles hl hv (hs.live_of_opened hv)).bind fun t h => ?_
  refine post_ok (vopDecref_settles hl (h.closed hs)) fun _ t' h' => ?_
  have hsum : - (oneRef v + oneOpen v) - - oneOpen v = - oneRef v := by abel
  rw [hsum]
  exact h'

theorem inParent_moves (path : CString) {op : ν → CString → Prog Errno μ Unit} (hs : ops.Ok s)
    (hop : ∀ dir name mem, ops.Live mem dir → ops.Neutral p (op dir name) mem) :
    ops.Moves p (ops.inParent path op) (fun _ => 0) 0 s := by
  refine (vfsLookparent_moves hl path nameBuflen hs).bind fun r t h => ?_
  have hback := giveBack_moves hl hs h (fun _ => backing_zero)
    (Moves.vop (h.live hs) (hop r.1 r.2 _ (h.live hs)).moves)
  simpa only [zero_sub] using hback

theorem newParent_moves (newpath : CString) (hs : ops.Ok s) (hv : ops.Moved s s' (oneRef v)) :
    ops.Moves p (ops.newParent v newpath) (fun r => oneRef r.1) (- oneRef v) s' := by
  have hok := hv.ok hs (backing_oneRef v)
  refine (vfsLookparent_moves hl newpath nameBuflen hok).attempt_bind
    (fun r t h => Moves.pure (sub_self _)) fun err t h => ?_
  have hspare := (hv.trans h).spare hs ((spare_oneRef v).add_backing backing_zero)
  exact (vopDecref_settles hl hspare).bind fun _ _ => Moves.fail (by abel)

/-- The operation of `vfs_rename` and `vfs_link`; both vnodes are given back, also if they are the
same. -/
theorem onSameFs_moves [DecidableEq φ] {op : VfsProg μ ν φ Unit} (hs : ops.Ok s)
    (hv : ops.Moved s s' (oneRef v + oneRef w))
    (hop : ops.Live s'.mem v → ops.Live s'.mem w → ops.Moves p op (fun _ => 0) 0 s') :
    ops.Moves p (ops.onSameFs v w op) (fun _ => - (oneRef v + oneRef w))
      (- (oneRef v + oneRef w)) s' := by
  have hlive : ∀ {x}, Spare (oneRef v + oneRef w) x → ops.Live s'.mem x :=
    fun hx => Nat.zero_lt_of_lt (hv.spare hs hx)
  replace hop := hop (hlive ((spare_oneRef v).add_backing (backing_oneRef w)))
    (hlive ((backing_oneRef v).add_spare (spare_oneRef w)))
  have hback : ∀ {t : Vfs μ ν φ} (rest : VfsProg μ ν φ Unit),
      ops.Moved s' t 0 → (∀ t', ops.Moves p rest (fun _ => 0) 0 t') →
      ops.Moves p (do
        ops.vopDecref w
        ops.vopDecref v
        rest) (fun _ => - (oneRef v + oneRef w)) (- (oneRef v + oneRef w)) t := by
    intro t rest ht hrest
    have hheld : ops.Moved s t (oneRef v + oneRef w) := by simpa using hv.trans ht
    have hw := hheld.spare hs ((backing_oneRef v).add_spare (spare_oneRef w))
    refine (vopDecref_settles hl hw).bind fun t₁ h1 => ?_
    have hheld1 : ops.Moved s t₁ (oneRef v) := by simpa using hheld.trans h1
    refine (vopDecref_settles hl (hheld1.spare hs (spare_oneRef v))).bind fun t₂ _ => ?_
    have hsum : - (oneRef v + oneRef w) - - oneRef w - - oneRef v = (0 : ν → ℤ × ℤ) := by abel
    simp only [hsum]
    exact hrest t₂
  rw [onSameFs]
  split_ifs
  · exact hback _ Moved.refl fun _ => Moves.fail rfl
  · refine hop.attempt_bind (fun x t h => ?_) fun err t h => ?_
    · simp only [sub_zero]
      exact hback (ofResult (.ok x)) h fun _ => Moves.pure rfl
    · simp only [sub_zero]
      exact hback (ofResult (.error err)) h fun _ => Moves.fail rfl

/-- **`vfs_rename`.** -/
theorem vfsRename_moves [DecidableEq φ] (oldpath newpath : CString) (hs : ops.Ok s) :
    ops.Moves p (ops.vfsRename oldpath newpath) (fun _ => 0) 0 s := by
  refine (vfsLookparent_moves hl oldpath nameBuflen hs).bind fun r t h => ?_
  rw [zero_sub]
  refine (newParent_moves hl newpath hs h).bind fun r' t' h' => ?_
  have hop := onSameFs_moves hl hs (h.trans h') fun h1 h2 =>
    Moves.vop h1 (hl.vopRename _ r.2 _ r'.2 _ h1 h2).moves
  simpa only [zero_sub, neg_add, sub_eq_add_neg] using hop

/-- **`vfs_link`.** -/
theorem vfsLink_moves [DecidableEq φ] (oldpath newpath : CString) (hs : ops.Ok s) :
    ops.Moves p (ops.vfsLink oldpath newpath) (fun _ => 0) 0 s := by
  refine (vfsLookup_moves hl oldpath hs).bind fun v t h => ?_
  rw [zero_sub]
  refine (newParent_moves hl newpath hs h).bind fun r' t' h' => ?_
  have hop := onSameFs_moves hl hs (h.trans h') fun h1 h2 =>
    Moves.vop h2 (hl.vopLink _ r'.2 _ _ h2 h1).moves
  simpa only [zero_sub, neg_add, sub_eq_add_neg] using hop

theorem giveBackUio_moved {m : Prog Errno (Vfs μ ν φ × Uio) Unit} {u : Uio} (hs : ops.Ok s)
    (hv : ops.Moved s s' (oneRef v))
    (hm : ops.MovesUio p m s' u) :
    Wp p (do
      let result ← attempt m
      onFst (ops.vopDecref v)
      ofResult result) (fun _ t => ops.Moved s t.1 0) (fun _ t => ops.Moved s t.1 0)
      (s', u) := by
  have hback : ∀ {t : Vfs μ ν φ × Uio} (r : Except Errno Unit), ops.Moved s' t.1 0 → Wp p (do
        onFst (ops.vopDecref v)
        ofResult r) (fun _ t' => ops.Moved s t'.1 0) (fun _ t' => ops.Moved s t'.1 0) t := by
    intro t r ht
    have hheld : ops.Moved s t.1 (oneRef v) := by simpa using hv.trans ht
    rw [wp_bind, wp_onFst]
    refine post_ok (vopDecref_settles hl (hheld.spare hs (spare_oneRef v))) fun _ t' h => ?_
    have hend : ops.Moved s t' 0 := by simpa using hheld.trans h
    cases r with
    | ok x => exact wp_ofResult_ok.mpr hend
    | error err => exact wp_ofResult_error.mpr hend
  rw [wp_bind, wp_attempt]
  exact hm.imp (fun x t h => hback (.ok x) h) fun err t h => hback (.error err) h

/-- **`vfs_readlink`.** -/
theorem vfsReadlink_moved (path : CString) (u : Uio) (hs : ops.Ok s) :
    ops.MovesUio p (ops.vfsReadlink path) s u := by
  rw [MovesUio, vfsReadlink, wp_bind, wp_onFst]
  refine post (vfsLookup_moves hl path hs) fun v s' h => ?_
  rw [wp_bind, wp_onFst, wp_vnodeCheck (h.live hs)]
  exact giveBackUio_moved hl hs h (hl.vopReadlink v _ (h.live hs)).moved

theorem getcwdMove_moved (name : CString) {u : Uio} (hu : u.Covered) (hv : ops.Live s.mem v) :
    ops.MovesUio p (ops.getcwdMove v name) s u := by
  rw [MovesUio, getcwdMove, wp_bind, wp_onSnd]
  refine (uiomove_covered hu).imp (fun _ u₁ h1 => ?_) fun _ _ _ => Moved.refl
  rw [wp_bind, wp_onSnd]
  refine (uiomove_covered h1).imp (fun _ u₂ _ => ?_) fun _ _ _ => Moved.refl
  rw [wp_bind, wp_onFst, wp_vnodeCheck hv]
  exact (hl.vopNamefile v _ hv).moved

/-- **`vfs_getcwd`.** -/
theorem vfsGetcwd_moved [DecidableEq φ] {u : Uio} (hrw : u.uioRw = .read) (hu : u.Covered)
    (hs : ops.Ok s) :
    ops.MovesUio p ops.vfsGetcwd s u := by
  rw [MovesUio, vfsGetcwd, wp_bind, wp_get, wp_bind, wp_assert_of hrw, wp_bind, wp_onFst]
  refine (vfsGetcurdir_spec hl).post fun v s' h => ?_
  obtain ⟨hv, hcwd⟩ := h
  rw [wp_bind, wp_get]
  obtain ⟨fs, hfs⟩ := Option.isSome_iff_exists.mp (hs.cwdFs v hcwd)
  obtain ⟨name, hname⟩ := (hv.ok hs (backing_oneRef v)).volumeName_eq_some fs
  rw [hfs, Option.bind_some, hname]
  exact giveBackUio_moved hl hs hv (getcwdMove_moved hl name hu (hv.live hs))

/-- **`vfs_setcurdir`** makes a directory the current one, which takes a reference to it and gives
back the one to the old directory. -/
theorem vfsSetcurdir_spec (hs : ops.Ok s) (hv : ops.Moved s s' (oneRef v)) :
    Wp p (ops.vfsSetcurdir v) (fun _ t => (ops.vnFs v).isSome ∧
        ops.Moved { s' with cwd := some v } t (oneRef v - dirRef s'.cwd))
      (fun _ t => ops.Moved s' t 0) s' := by
  rw [vfsSetcurdir, wp_bind, vop, wp_bind, wp_vnodeCheck (hv.live hs), onMem, wp_zoom]
  refine (hl.vopGettype v _ (hv.live hs)).imp (fun t mem' h => ?_) fun _ _ => counts_moved
  obtain ⟨hcounts, hdir⟩ := h
  have htype := counts_moved hcounts
  split_ifs with hne
  · exact wp_fail.mpr htype
  rw [wp_bind]
  refine post_ok (vopIncref_settles hl) fun _ t₁ h1 => ?_
  rw [wp_bind, wp_get, wp_bind, wp_modify]
  have hheld : ops.Moved s' t₁ (oneRef v) := by simpa using htype.trans h1
  have hset := hheld.setCwd (some v)
  cases hcwd : t₁.cwd with
  | none =>
    refine wp_pure.mpr ⟨hdir (not_not.mp hne), ?_⟩
    rw [← hheld.cwd, hcwd]
    simpa using hset
  | some old =>
    have hok := (hv.trans hheld).ok hs ((backing_oneRef v).add (backing_oneRef v))
    refine post_ok (vopDecref_settles hl (s := { t₁ with cwd := some v })
      (hok.cwd_spare hcwd)) fun _ t₂ h2 => ⟨hdir (not_not.mp hne), ?_⟩
    rw [← hheld.cwd, hcwd]
    simpa [sub_eq_add_neg] using hset.trans h2

/-- **`vfs_chdir`** moves one reference from the old current directory to the new one, or changes
nothing. -/
theorem vfsChdir_spec (path : CString) (hs : ops.Ok s) : Wp p (ops.vfsChdir path)
      (fun _ t => ∃ v, (ops.vnFs v).isSome ∧
        ops.Moved { s with cwd := some v } t (oneRef v - dirRef s.cwd))
      (fun _ t => ops.Moved s t 0) s := by
  rw [vfsChdir, wp_bind]
  refine post (vfsLookup_moves hl path hs) fun v s' hv => ?_
  rw [wp_bind, wp_attempt]
  refine (vfsSetcurdir_spec hl hs hv).imp (fun _ t h => ?_) fun err t h => ?_
  · obtain ⟨hfs, hset⟩ := h
    rw [hv.cwd] at hset
    have hmoved := (hv.setCwd (some v)).trans hset
    -- the lookup and the current directory have a reference each
    have hspare : (ops.countsOf t v).vnOpencount < (ops.countsOf t v).vnRefcount := by
      have hr : ((ops.countsOf t v).vnRefcount : ℤ) + s.reclaimWarnings v =
          (ops.countsOf s v).vnRefcount + t.reclaimWarnings v + _ := (hmoved.counts v).1
      have ho : ((ops.countsOf t v).vnOpencount : ℤ) = (ops.countsOf s v).vnOpencount + _ :=
        (hmoved.counts v).2
      have hw : s.reclaimWarnings v ≤ t.reclaimWarnings v := hmoved.warned v
      have hle := hs.opens v
      simp only [Pi.add_apply, Pi.sub_apply, oneRef_self, dirRef_apply, Prod.fst_add, Prod.snd_add,
        Prod.fst_sub, Prod.snd_sub] at hr ho
      split_ifs at hr hle <;> omega
    refine wp_bind.mpr (post_ok (vopDecref_settles hl hspare) fun _ t' h' => ?_)
    refine wp_ofResult_ok.mpr ⟨v, hfs, ?_⟩
    have hsum : oneRef v + (oneRef v - dirRef s.cwd) + - oneRef v = oneRef v - dirRef s.cwd := by
      abel
    exact hsum ▸ hmoved.trans h'
  · have hspare := (hv.trans h).spare hs ((spare_oneRef v).add_backing backing_zero)
    refine wp_bind.mpr (post_ok (vopDecref_settles hl hspare) fun _ t' h' => ?_)
    exact wp_ofResult_error.mpr (by simpa using (hv.trans h).trans h')

end Calls

/-! ## 7. The layer -/

/-- A call of the layer. -/
inductive Call (ν : Type)
  | openFile (path : CString) (openflags : BitVec 32) (mode : Nat)
  | close (vn : ν)
  | remove (path : CString)
  | rename (oldpath newpath : CString)
  | link (oldpath newpath : CString)
  | symlink (contents path : CString)
  | readlink (path : CString) (uio : Uio)
  | mkdir (path : CString) (mode : Nat)
  | rmdir (path : CString)
  | chdir (path : CString)
  | getcwd (uio : Uio)

namespace Call

variable (ops)

/-- Run the call; `vfs_open` hands back a vnode. -/
def run [DecidableEq φ] : Call ν → VfsProg μ ν φ (Option ν)
  | openFile path openflags mode => do
    let vn ← ops.vfsOpen path openflags mode
    pure (some vn)
  | close vn => do
    ops.vfsClose vn
    pure none
  | remove path => do
    ops.vfsRemove path
    pure none
  | rename oldpath newpath => do
    ops.vfsRename oldpath newpath
    pure none
  | link oldpath newpath => do
    ops.vfsLink oldpath newpath
    pure none
  | symlink contents path => do
    ops.vfsSymlink contents path
    pure none
  | readlink path uio => do
    let _ ← withLocal uio (ops.vfsReadlink path)
    pure none
  | mkdir path mode => do
    ops.vfsMkdir path mode
    pure none
  | rmdir path => do
    ops.vfsRmdir path
    pure none
  | chdir path => do
    ops.vfsChdir path
    pure none
  | getcwd uio => do
    let _ ← withLocal uio ops.vfsGetcwd
    pure none

/-- What a caller has to know: it closes a file that is open, and its uio is for reading and has
room for what it says. -/
def Legal (s : Vfs μ ν φ) : Call ν → Prop
  | close vn => 0 < (ops.countsOf s vn).vnOpencount
  | getcwd uio => uio.uioRw = .read ∧ uio.Covered
  | _ => True

variable {ops}

/-- What a call that returns successfully leaves in the counters: `vfs_open` one reference and one
open of the vnode that it hands back, `vfs_close` one of each less, and `vfs_chdir` the reference of
the current directory in another place. -/
def gain (op : Call ν) (r : Option ν) (s s' : Vfs μ ν φ) : ν → ℤ × ℤ :=
  match op, r with
  | openFile _ _ _, some vn => oneRef vn + oneOpen vn
  | close vn, _ => - (oneRef vn + oneOpen vn)
  | chdir _, _ => dirRef s'.cwd - dirRef s.cwd
  | _, _ => 0

end Call

variable (ops) in
/-- The counters of every vnode changed by `d`; of the reference counts, only those have grown more
for which `VOP_RECLAIM` failed, by the number of times it did. -/
def CountsChanged (s s' : Vfs μ ν φ) (d : ν → ℤ × ℤ) : Prop :=
  ∀ v, ((ops.countsOf s' v).vnRefcount : ℤ) = (ops.countsOf s v).vnRefcount + (d v).1 +
        (s'.reclaimWarnings v - s.reclaimWarnings v) ∧
    ((ops.countsOf s' v).vnOpencount : ℤ) = (ops.countsOf s v).vnOpencount + (d v).2

omit [DecidableEq ν] in
theorem Moved.countsChanged (h : ops.Moved s s' d) : ops.CountsChanged s s' d := fun v => by
  obtain ⟨hr, ho⟩ := h.counts v
  exact ⟨by omega, ho⟩

variable (ops) in
/-- The state is in order, and the counters changed by `d`. -/
def Leaves (s s' : Vfs μ ν φ) (d : ν → ℤ × ℤ) : Prop := ops.Ok s' ∧ ops.CountsChanged s s' d

theorem Moved.leaves (h : ops.Moved s s' d) (hs : ops.Ok s) (hd : Backing d) :
    ops.Leaves s s' d := ⟨h.ok hs hd, h.countsChanged⟩

theorem Moved.leaves_close (h : ops.Moved s s' (- (oneRef v + oneOpen v))) (hs : ops.Ok s) :
    ops.Leaves s s' (- (oneRef v + oneOpen v)) := by
  refine ⟨⟨fun w => ?_, fun w hw => hs.cwdFs w (h.cwd ▸ hw), ?_, ?_⟩, h.countsChanged⟩
  · obtain ⟨hr, ho⟩ := h.counts w
    have hle := hs.opens w
    have hwarn := h.warned w
    rw [h.cwd]
    rcases eq_or_ne w v with rfl | hne
    · simp only [Pi.neg_apply, Pi.add_apply, oneRef_self, oneOpen_self, Prod.fst_neg, Prod.snd_neg,
        Prod.fst_add, Prod.snd_add] at hr ho
      omega
    · simp only [Pi.neg_apply, Pi.add_apply, oneRef_of_ne hne, oneOpen_of_ne hne, add_zero,
        neg_zero, Prod.fst_zero, Prod.snd_zero] at hr ho
      omega
  · rw [h.knowndevs]
    exact hs.mounted
  · rw [h.knowndevs]
    exact hs.devices

theorem Moved.leaves_chdir (h : ops.Moved { s with cwd := some v } s' (oneRef v - dirRef s.cwd))
    (hs : ops.Ok s) (hv : (ops.vnFs v).isSome) :
    ops.Leaves s s' (dirRef s'.cwd - dirRef s.cwd) := by
  have hcwd : s'.cwd = some v := h.cwd
  rw [hcwd, dirRef_some]
  refine ⟨⟨fun w => ?_, fun w hw => ?_, ?_, ?_⟩, h.countsChanged⟩
  · have hr : ((ops.countsOf s' w).vnRefcount : ℤ) + s.reclaimWarnings w =
        (ops.countsOf s w).vnRefcount + s'.reclaimWarnings w + _ := (h.counts w).1
    have ho : ((ops.countsOf s' w).vnOpencount : ℤ) = (ops.countsOf s w).vnOpencount + _ :=
      (h.counts w).2
    have hwarn : s.reclaimWarnings w ≤ s'.reclaimWarnings w := h.warned w
    have hle := hs.opens w
    rw [hcwd]
    rw [← dirRef_some v] at hr ho
    simp only [Pi.sub_apply, dirRef_apply, Prod.fst_sub, Prod.snd_sub] at hr ho
    split_ifs at hr hle ⊢ <;> omega
  · rw [hcwd] at hw
    cases hw
    exact hv
  · rw [h.knowndevs]
    exact hs.mounted
  · rw [h.knowndevs]
    exact hs.devices

section Layer

theorem leaves_of_moves {m : VfsProg μ ν φ α} (hs : ops.Ok s)
    (hm : ops.Moves p m (fun _ => 0) 0 s) :
    Wp p (do
      let _ ← m
      pure (none : Option ν)) (fun _ s' => ops.Leaves s s' 0)
      (fun _ s' => ops.Leaves s s' 0 ∧ s'.cwd = s.cwd) s := by
  rw [wp_bind]
  exact imp hm (fun _ _ h => wp_pure.mpr (h.leaves hs backing_zero))
    fun _ _ h => ⟨h.leaves hs backing_zero, h.cwd⟩

/-- **The layer is balanced.**  Over file systems that keep to their contract, every call leaves the
counters of every vnode as it has to, up to the reclaims that failed; a call that fails leaves them,
and the current directory, as they were. -/
theorem vfsCall_balanced [DecidableEq φ] (hl : ops.Lawful p) (hs : ops.Ok s) (op : Call ν)
    (hop : op.Legal ops s) :
    Wp p (op.run ops) (fun r s' => ops.Leaves s s' (op.gain r s s'))
      (fun _ s' => ops.Leaves s s' 0 ∧ s'.cwd = s.cwd) s := by
  cases op with
  | openFile path openflags mode =>
    refine wp_bind.mpr (Prog.Wp.imp (vfsOpen_moves hl path openflags mode hs)
      (fun v s' h => ?_) fun _ _ h => ⟨h.leaves hs backing_zero, h.cwd⟩)
    exact wp_pure.mpr (h.leaves hs (backing_oneRef_add_oneOpen v))
  | close v =>
    refine wp_bind.mpr (Prog.Wp.imp (vfsClose_moves (e := 0) hl hs hop) (fun _ s' h => ?_)
      fun _ _ h => ⟨h.leaves hs backing_zero, h.cwd⟩)
    exact wp_pure.mpr (h.leaves_close hs)
  | remove path => exact leaves_of_moves hs (inParent_moves hl path hs hl.vopRemove)
  | rename oldpath newpath => exact leaves_of_moves hs (vfsRename_moves hl oldpath newpath hs)
  | link oldpath newpath => exact leaves_of_moves hs (vfsLink_moves hl oldpath newpath hs)
  | symlink contents path =>
    exact leaves_of_moves hs
      (inParent_moves hl path hs fun dir name => hl.vopSymlink dir name contents)
  | readlink path uio =>
    exact leaves_of_moves hs (wp_withLocal.mpr (vfsReadlink_moved hl path uio hs))
  | mkdir path mode =>
    exact leaves_of_moves hs (inParent_moves hl path hs fun dir name => hl.vopMkdir dir name mode)
  | rmdir path => exact leaves_of_moves hs (inParent_moves hl path hs hl.vopRmdir)
  | chdir path =>
    refine wp_bind.mpr ((vfsChdir_spec hl path hs).imp (fun _ s' h => ?_)
      fun _ _ h => ⟨h.leaves hs backing_zero, h.cwd⟩)
    obtain ⟨v, hfs, h⟩ := h
    exact wp_pure.mpr (h.leaves_chdir hs hfs)
  | getcwd uio => exact leaves_of_moves hs (wp_withLocal.mpr (vfsGetcwd_moved hl hop.1 hop.2 hs))

end Layer

end VnodeOps

/-! ## 8. A small file system -/

/-- One more reference to `v`. -/
def handBack {α : Type} (v : Bool) (a : α) : Prog Errno (Bool → Vnode) α := do
  modify fun mem => update mem v (vnodeIncref (mem v))
  pure a

/-- A file system with a root (`false`) and one more directory (`true`), which every name in the
root leads to.  It can or cannot reclaim vnodes. -/
def tinyOps (reclaims : Bool) : VnodeOps (Bool → Vnode) Bool Unit where
  counts mem := mem
  setCounts mem v c := update mem v c
  vnFs _ := some ()
  vopOpen _ _ := pure ()
  vopClose _ := pure ()
  vopReclaim v :=
    if reclaims then modify fun mem => update mem v ⟨0, 0⟩ else fail .eio
  vopReadlink _ := pure ()
  vopGettype _ := pure .ifdir
  vopTruncate _ _ := fail .eisdir
  vopNamefile _ := pure ()
  vopCreat _ _ _ _ := handBack true true
  vopSymlink _ _ _ := pure ()
  vopMkdir _ _ _ := fail .eexist
  vopLink _ _ _ := pure ()
  vopRemove _ _ := pure ()
  vopRmdir _ _ := pure ()
  vopRename _ _ _ _ := pure ()
  vopLookup _ _ := handBack true true
  vopLookparent v path _ := handBack v (v, path)
  fsGetvolname _ _ := none
  fsGetroot _ := handBack false false

theorem tinyOps_lawful (reclaims : Bool) : (tinyOps reclaims).Lawful False where
  counts_setCounts _ _ _ := rfl
  vopOpen _ _ _ _ := wp_pure.mpr rfl
  vopClose _ _ _ := wp_pure.mpr rfl
  vopReclaim v mem _ := by
    cases reclaims with
    | true => exact wp_modify.mpr rfl
    | false => exact wp_fail.mpr ⟨nofun, rfl⟩
  vopReadlink _ _ _ _ := wp_pure.mpr rfl
  vopGettype _ _ _ := wp_pure.mpr ⟨rfl, fun _ => rfl⟩
  vopTruncate _ _ _ _ := wp_fail.mpr rfl
  vopNamefile _ _ _ _ := wp_pure.mpr rfl
  vopCreat _ _ _ _ _ _ := wp_bind.mpr (wp_modify.mpr (wp_pure.mpr rfl))
  vopSymlink _ _ _ _ _ := wp_pure.mpr rfl
  vopMkdir _ _ _ _ _ := wp_fail.mpr rfl
  vopLink _ _ _ _ _ _ := wp_pure.mpr rfl
  vopRemove _ _ _ _ := wp_pure.mpr rfl
  vopRmdir _ _ _ _ := wp_pure.mpr rfl
  vopRename _ _ _ _ _ _ _ := wp_pure.mpr rfl
  vopLookup _ _ _ _ := wp_bind.mpr (wp_modify.mpr (wp_pure.mpr rfl))
  vopLookparent _ _ _ _ _ := wp_bind.mpr (wp_modify.mpr (wp_pure.mpr rfl))
  fsGetroot _ _ := wp_bind.mpr (wp_modify.mpr (wp_pure.mpr rfl))

/-- A machine with this file system; its root is the current directory. -/
def tinyVfs : Vfs (Bool → Vnode) Bool Unit where
  mem v := if v then ⟨0, 0⟩ else ⟨1, 0⟩
  cwd := some false
  bootfsVnode := none
  knowndevs := [⟨⟨[100], by decide⟩, none, false, false, some ()⟩]
  reclaimWarnings _ := 0

theorem tinyVfs_ok (reclaims : Bool) : (tinyOps reclaims).Ok tinyVfs where
  opens v := by
    cases v <;> exact le_rfl
  cwdFs _ _ := rfl
  mounted _ := ⟨_, mem_cons_self, rfl⟩
  devices kd hkd _ := by
    rw [mem_singleton.mp hkd]
    exact ⟨rfl, rfl⟩

/-- The name `a`. -/
def nameA : CString := ⟨[97], by decide⟩

theorem tiny_chdir_balanced : Wp False ((VnodeOps.Call.chdir nameA).run (tinyOps true))
      (fun r s' => (tinyOps true).Leaves tinyVfs s' ((VnodeOps.Call.chdir nameA).gain r tinyVfs s'))
      (fun _ s' => (tinyOps true).Leaves tinyVfs s' 0 ∧ s'.cwd = tinyVfs.cwd) tinyVfs :=
  VnodeOps.vfsCall_balanced (tinyOps_lawful true) (tinyVfs_ok true) (.chdir nameA) trivial

/-- Where `VOP_RECLAIM` fails, a `vfs_readlink` leaves a vnode with a reference that nobody
holds. -/
theorem tiny_readlink_leaves_reference : (tinyOps false).Lawful False ∧ (tinyOps false).Ok tinyVfs ∧
      ((tinyOps false).countsOf tinyVfs true).vnRefcount = 0 ∧
      ∃ s', (VnodeOps.Call.readlink nameA (uioKinit [] 0 .read)).run (tinyOps false) tinyVfs =
          some (.ok none, s') ∧
        ((tinyOps false).countsOf s' true).vnRefcount = 1 := by
  refine ⟨tinyOps_lawful false, tinyVfs_ok false, rfl, _, rfl, rfl⟩

end Os161
