/-
# `vfslist.c`: the table of known devices

One table holds everything that can stand before a colon in a path: the names of devices, the
names of their raw devices (`lhd0raw`), and the names of the volumes that are mounted on them.
`vfs_getroot` walks it from the front and takes the first entry that answers to the string it was
given, under ANY of the three (`AnswersTo`), so that a string which two entries answer to
silently means the first of them.

Section 1 is `vfs_doadd`, which registers a device and looks all its names up first (`badnames`),
and `vfs_mount`, `vfs_unmount` and `vfs_unmountall`, which change the file system of an entry.
Section 2 says which names an entry answers to and connects that with the loop of `vfs_getroot`.
Section 3 says what each call does to the table, and section 4 is about all sequences of calls.

A volume name enters the table when the volume is mounted, and `vfs_mount` does not look it up:
a volume may carry the name of another device.  Every other way into the table is guarded, so this
one is the only way to an ambiguous name (`names_unambiguous`).

The table is protected by `knowndevs_lock`, which `vfs_doadd` makes anew on every call; when it
finds a name taken it returns with the lock held, after giving back a level of the file system lock
that it never took.  Both are in the model: a call that meets the lock held does not come back.
-/
import Os161.Vfs
import Os161.Lib.Run

namespace Os161

open Function List

variable {μ ν φ δ : Type}

/-! ## 1. The functions -/

/-- `knowndevs_lock`: a null pointer before the first device is registered. -/
inductive KnowndevsLock
  | absent | free | held
  deriving DecidableEq, Repr

/-- The state of `vfslist.c`, as the thread that calls it sees it. -/
structure DevTable (ν φ δ : Type) where
  knowndevs : List (Knowndev ν φ)
  knowndevsLock : KnowndevsLock
  /-- How often the calling thread holds `vfs_biglock`. -/
  vfsBiglockDepth : Nat
  /-- `d_devnumber` of each device. -/
  devnumber : δ → Nat

/-- A program of `vfslist.c`. -/
abbrev DevProg (ν φ δ α : Type) := Prog Errno (DevTable ν φ δ) α

/-- What the allocations in `vfs_doadd` come to, in the order in which it makes them. -/
structure AddAnswer (ν : Type) where
  /-- `lock_create`, `kstrdup`, `mkrawname`. -/
  lock : Bool
  name : Bool
  rawname : Bool
  /-- `dev_create_vnode`. -/
  vnode : Option ν
  /-- `kmalloc` of the entry and the growth of the array. -/
  kd : Bool
  room : Bool

/-- What the file system on a device answers to `FSOP_SYNC`, to a second `FSOP_SYNC`, and to
`FSOP_UNMOUNT`; `none` is success. -/
structure FsAnswer where
  sync : Option Errno
  resync : Option Errno
  unmount : Option Errno

/-- `vfs_biglock_acquire`. -/
def DevTable.vfsBiglockAcquire : DevProg ν φ δ Unit :=
  modify fun s => { s with vfsBiglockDepth := s.vfsBiglockDepth + 1 }

/-- `vfs_biglock_release`. -/
def DevTable.vfsBiglockRelease : DevProg ν φ δ Unit := do
  let s ← get
  assert (0 < s.vfsBiglockDepth)
  modify fun s => { s with vfsBiglockDepth := s.vfsBiglockDepth - 1 }

/-- `lock_acquire(knowndevs_lock)`.  A thread that holds the lock already stops the machine, and
any other one waits for good. -/
def acquireKnowndevs : DevProg ν φ δ Unit := do
  let s ← get
  assert (s.knowndevsLock = .free)
  modify fun s => { s with knowndevsLock := .held }

/-- `lock_release(knowndevs_lock)`. -/
def releaseKnowndevs : DevProg ν φ δ Unit :=
  modify fun s => { s with knowndevsLock := .free }

/-- How every call that has the lock gives up: release it and return the error. -/
def unlockFail (e : Errno) : DevProg ν φ δ Unit := do
  releaseKnowndevs
  fail e

variable {p : Prop} {Q : Unit → DevTable ν φ δ → Prop} {E : Errno → DevTable ν φ δ → Prop}
  {s : DevTable ν φ δ}

@[simp] theorem wp_releaseKnowndevs :
    Wp p releaseKnowndevs Q E s ↔ Q () { s with knowndevsLock := .free } := wp_modify

@[simp] theorem wp_unlockFail {e : Errno} :
    Wp p (unlockFail e) Q E s ↔ E e { s with knowndevsLock := .free } := by
  simp [unlockFail]

/-- The letters that `mkrawname` puts behind a name. -/
def rawSuffix : CString := cString ("raw".toList.map fun c => BitVec.ofNat 8 c.toNat)

/-- `mkrawname`. -/
def mkrawname (name : CString) : CString := name.append rawSuffix

/-- `samestring`: the same, and neither of them a null pointer. -/
def samestring (a b : Option CString) : Bool :=
  match a, b with
  | some s, some t => s = t
  | _, _ => false

/-- `samestring3`. -/
def samestring3 (a b c d : Option CString) : Bool :=
  samestring a b || samestring a c || samestring a d

section Functions

variable (volname : φ → Option CString)

/-- One round of the loop in `badnames`. -/
def badname (n1 n2 n3 : Option CString) (kd : Knowndev ν φ) : Bool :=
  samestring3 (kd.kdFs.bind volname) n1 n2 n3 ||
    (samestring3 kd.kdRawname n1 n2 n3 || samestring3 (some kd.kdName) n1 n2 n3)

/-- `badnames`. -/
def badnames (knowndevs : List (Knowndev ν φ)) (n1 n2 n3 : Option CString) : Bool :=
  knowndevs.any (badname volname n1 n2 n3)

/-- The end of `vfs_doadd`, where the entry has been made: look its names up and add it. -/
def addEntry [DecidableEq δ] (dev : Option δ) (room : Bool) (kd : Knowndev ν φ) :
    DevProg ν φ δ Unit := do
  let s ← get
  if badnames volname s.knowndevs (some kd.kdName) kd.kdRawname (kd.kdFs.bind volname) then do
    DevTable.vfsBiglockRelease
    fail .eexist
  else if room then do
    modify fun s => { s with
      knowndevs := s.knowndevs ++ [kd]
      -- The index plus one, so that 0 is no device.
      devnumber := match dev with
        | some d => update s.devnumber d (s.knowndevs.length + 1)
        | none => s.devnumber }
    releaseKnowndevs
  else unlockFail .enomem

/-- `vfs_doadd`. -/
def vfsDoadd [DecidableEq δ] (dname : CString) (mountable : Bool) (dev : Option δ) (fs : Option φ)
    (a : AddAnswer ν) : DevProg ν φ δ Unit := do
  assert (a.lock = true)
  modify fun s => { s with knowndevsLock := .held }
  match a.vnode with
  | some v =>
    if a.name && (!mountable || a.rawname) && a.kd then
      addEntry volname dev a.room
        { kdName := dname, kdRawname := if mountable then some (mkrawname dname) else none,
          kdDevice := dev.isSome, kdVnode := v, kdFs := fs }
    else unlockFail .enomem
  | none => unlockFail .enomem

/-- `vfs_adddev`. -/
def vfsAdddev [DecidableEq δ] (devname : CString) (dev : δ) (mountable : Bool) (a : AddAnswer ν) :
    DevProg ν φ δ Unit := vfsDoadd volname devname mountable (some dev) none a

/-- `vfs_addfs`. -/
def vfsAddfs [DecidableEq δ] (devname : CString) (fs : φ) (a : AddAnswer ν) :
    DevProg ν φ δ Unit := vfsDoadd volname devname false none (some fs) a

end Functions

/-- The test in the loop of `findmount`. -/
def isMount (devname : CString) (kd : Knowndev ν φ) : Bool :=
  kd.kdRawname.isSome && decide (devname = kd.kdName)

/-- `findmount`: the first mountable device of that name, and its place. -/
def findmount (devname : CString) (knowndevs : List (Knowndev ν φ)) : Option (Nat × Knowndev ν φ) :=
  (knowndevs.findIdx? (isMount devname)).bind fun i => knowndevs[i]?.map (i, ·)

/-- How `vfs_mount` and `vfs_unmount` begin. -/
def withMount (devname : CString) (body : Nat → Knowndev ν φ → DevProg ν φ δ Unit) :
    DevProg ν φ δ Unit := do
  acquireKnowndevs
  let s ← get
  match findmount devname s.knowndevs with
  | none => unlockFail .enodev
  | some (i, kd) => body i kd

/-- `kd->kd_fs = fs` for the entry at `i`. -/
def DevTable.setFs (s : DevTable ν φ δ) (i : Nat) (fs : Option φ) : DevTable ν φ δ :=
  { s with knowndevs := s.knowndevs.modify i fun kd => { kd with kdFs := fs } }

/-- The middle of `vfs_mount`, for the entry that was found.  `answer` is what `mountfunc` does. -/
def mountEntry (i : Nat) (kd : Knowndev ν φ) (answer : Except Errno (Option φ)) :
    DevProg ν φ δ Unit :=
  if kd.kdFs.isSome then unlockFail .ebusy
  else do
    assert (kd.kdRawname.isSome)
    assert (kd.kdDevice = true)
    match answer with
    | .error e => unlockFail e
    | .ok fs => do
      assert (fs.isSome)
      modify fun s => s.setFs i fs
      releaseKnowndevs

/-- `vfs_mount`. -/
def vfsMount (devname : CString) (answer : Except Errno (Option φ)) : DevProg ν φ δ Unit :=
  withMount devname fun i kd => mountEntry i kd answer

/-- The middle of `vfs_unmount`, for the entry that was found. -/
def unmountEntry (i : Nat) (kd : Knowndev ν φ) (a : FsAnswer) : DevProg ν φ δ Unit :=
  if kd.kdFs.isNone then unlockFail .einval
  else do
    assert (kd.kdRawname.isSome)
    assert (kd.kdDevice = true)
    match a.sync.or a.unmount with
    | some e => unlockFail e
    | none => do
      modify fun s => s.setFs i none
      releaseKnowndevs

/-- `vfs_unmount`. -/
def vfsUnmount (devname : CString) (a : FsAnswer) : DevProg ν φ δ Unit :=
  withMount devname fun i kd => unmountEntry i kd a

/-- One round of the loop in `vfs_unmountall`: the file system is dropped if it could be synced,
the second time perhaps, and unmounted. -/
def unmountOne (a : FsAnswer) (kd : Knowndev ν φ) : Knowndev ν φ :=
  if kd.kdRawname.isNone || kd.kdFs.isNone then kd
  else if a.sync.isSome && a.resync.isSome then kd
  else if a.unmount.isSome then kd
  else { kd with kdFs := none }

/-- `vfs_unmountall`. -/
def vfsUnmountall (a : Nat → FsAnswer) : DevProg ν φ δ Unit := do
  acquireKnowndevs
  modify fun s => { s with knowndevs := s.knowndevs.mapIdx fun i kd => unmountOne (a i) kd }
  releaseKnowndevs

/-! ## 2. The names of an entry -/

section Names

variable (volname : φ → Option CString)

/-- The entry answers to the string: it is the device's name, the name of its raw device, or the
name of the volume mounted on it. -/
def AnswersTo (kd : Knowndev ν φ) (name : CString) : Prop :=
  kd.kdName = name ∨ kd.kdRawname = some name ∨ kd.kdFs.bind volname = some name

instance (kd : Knowndev ν φ) (name : CString) : Decidable (AnswersTo volname kd name) :=
  inferInstanceAs (Decidable (_ ∨ _))

/-- **No string means two devices.** -/
def Unambiguous (knowndevs : List (Knowndev ν φ)) : Prop :=
  ∀ (i j : Nat) (kd kd' : Knowndev ν φ) (name : CString), knowndevs[i]? = some kd →
    knowndevs[j]? = some kd' → AnswersTo volname kd name → AnswersTo volname kd' name → i = j

variable {volname}

/-! ### What keeps the names apart -/

theorem samestring_iff {a b : Option CString} :
    samestring a b = true ↔ ∃ name, a = some name ∧ b = some name := by
  cases a <;> cases b <;> simp [samestring, eq_comm]

/-- The names of the one entry and the names of the other are looked up against each other in
full: `badname` finds nothing exactly when they have no name in common. -/
theorem badname_eq_false_iff (kd kd' : Knowndev ν φ) :
    badname volname (some kd'.kdName) kd'.kdRawname (kd'.kdFs.bind volname) kd = false ↔
      ∀ name, AnswersTo volname kd name → ¬ AnswersTo volname kd' name := by
  rw [← Bool.not_eq_true]
  refine Iff.trans (not_congr (b := ∃ name, AnswersTo volname kd name ∧
    AnswersTo volname kd' name) ?_) (by simp)
  simp only [badname, samestring3, Bool.or_eq_true, samestring_iff, AnswersTo, Option.some.injEq]
  constructor
  · rintro (((h | h) | h) | ((h | h) | h) | (h | h) | h) <;>
      obtain ⟨name, h1, h2⟩ := h <;> exact ⟨name, by tauto, by tauto⟩
  · rintro ⟨name, h1 | h1 | h1, h2 | h2 | h2⟩ <;> simp_all

variable {l : List (Knowndev ν φ)} {kd' kd : Knowndev ν φ} {i : Nat} {devname : CString}

theorem badnames_eq_false_iff :
    badnames volname l (some kd'.kdName) kd'.kdRawname (kd'.kdFs.bind volname) = false ↔
      ∀ kd ∈ l, ∀ name, AnswersTo volname kd name → ¬ AnswersTo volname kd' name := by
  simp only [badnames, any_eq_false, Bool.not_eq_true, badname_eq_false_iff]

theorem unambiguous_nil : Unambiguous volname ([] : List (Knowndev ν φ)) := by
  intro i j kd kd' name hi
  simp at hi

theorem Unambiguous.append (h : Unambiguous volname l)
    (hnew : ∀ kd ∈ l, ∀ name, AnswersTo volname kd name → ¬ AnswersTo volname kd' name) :
    Unambiguous volname (l ++ [kd']) := by
  have hcases : ∀ {i kd}, (l ++ [kd'])[i]? = some kd →
      l[i]? = some kd ∨ (i = l.length ∧ kd = kd') := by
    intro i kd hi
    rcases Nat.lt_trichotomy i l.length with hlt | heq | hgt
    · rw [getElem?_append_left hlt] at hi
      exact .inl hi
    · subst heq
      exact .inr ⟨rfl, by simpa using hi.symm⟩
    · rw [getElem?_eq_none (by simp; omega)] at hi
      cases hi
  intro i j kd₁ kd₂ name hi hj h1 h2
  rcases hcases hi with hi' | ⟨hi', rfl⟩ <;> rcases hcases hj with hj' | ⟨hj', rfl⟩
  · exact h i j kd₁ kd₂ name hi' hj' h1 h2
  · exact absurd h2 (hnew kd₁ (mem_of_getElem? hi') name h1)
  · exact absurd h1 (hnew kd₂ (mem_of_getElem? hj') name h2)
  · rw [hi', hj']

theorem Unambiguous.of_fewer {l' : List (Knowndev ν φ)} (h : Unambiguous volname l)
    (hle : ∀ (i : Nat) (kd' : Knowndev ν φ), l'[i]? = some kd' → ∃ kd, l[i]? = some kd ∧ ∀ name,
      AnswersTo volname kd' name → AnswersTo volname kd name) :
    Unambiguous volname l' := by
  intro i j kd₁ kd₂ name hi hj h1 h2
  obtain ⟨kd₁', hi', h1'⟩ := hle i kd₁ hi
  obtain ⟨kd₂', hj', h2'⟩ := hle j kd₂ hj
  exact h i j kd₁' kd₂' name hi' hj' (h1' name h1) (h2' name h2)

theorem AnswersTo.of_dropFs {name : CString} (h : AnswersTo volname { kd with kdFs := none } name) :
    AnswersTo volname kd name := by
  rcases h with h | h | h
  · exact .inl h
  · exact .inr (.inl h)
  · exact (nomatch h)

theorem Unambiguous.dropFs (h : Unambiguous volname l) (i : Nat) :
    Unambiguous volname (l.modify i fun kd => { kd with kdFs := none }) := by
  refine h.of_fewer fun j kd' hj => ?_
  rw [getElem?_modify] at hj
  obtain ⟨kd, hkd, rfl⟩ := Option.map_eq_some_iff.mp hj
  refine ⟨kd, hkd, fun name ha => ?_⟩
  by_cases hij : i = j
  · simp only [hij, if_true] at ha
    exact ha.of_dropFs
  · simpa only [hij, if_false] using ha

theorem Unambiguous.unmountOne (h : Unambiguous volname l) (a : Nat → FsAnswer) :
    Unambiguous volname (l.mapIdx fun i kd => unmountOne (a i) kd) := by
  refine h.of_fewer fun j kd' hj => ?_
  rw [getElem?_mapIdx] at hj
  obtain ⟨kd, hkd, rfl⟩ := Option.map_eq_some_iff.mp hj
  refine ⟨kd, hkd, fun name ha => ?_⟩
  unfold Os161.unmountOne at ha
  split_ifs at ha
  · exact ha
  · exact ha
  · exact ha
  · exact ha.of_dropFs

/-- **Mounting a volume.**  The names stay apart exactly when no OTHER entry answers to the name
of the volume. -/
theorem Unambiguous.mount_iff (h : Unambiguous volname l) (hi : l[i]? = some kd) (fs : φ) :
    Unambiguous volname (l.modify i fun kd => { kd with kdFs := some fs }) ↔
      ∀ v j kd', volname fs = some v → j ≠ i → l[j]? = some kd' → ¬ AnswersTo volname kd' v := by
  have hat : (l.modify i fun kd => { kd with kdFs := some fs })[i]? =
      some { kd with kdFs := some fs } := by simp [hi]
  have helse : ∀ {j}, j ≠ i →
      (l.modify i fun kd => { kd with kdFs := some fs })[j]? = l[j]? := fun hj => by
    simp [Ne.symm hj]
  constructor
  · intro h' v j kd' hv hj hkd' ha
    exact hj (h' j i kd' _ v ((helse hj).trans hkd') hat ha (.inr (.inr hv)))
  · intro hother
    -- Both places in terms of the table as it was: only `i` has a new name, and nobody else has it.
    have hnew : ∀ {j kd' name}, j ≠ i → l[j]? = some kd' → AnswersTo volname kd' name →
        ¬ AnswersTo volname { kd with kdFs := some fs } name := by
      rintro j kd' name hj hkd' ha (h1 | h1 | h1)
      · exact hj (h j i kd' kd name hkd' hi ha (.inl h1))
      · exact hj (h j i kd' kd name hkd' hi ha (.inr (.inl h1)))
      · exact hother name j kd' h1 hj hkd' ha
    intro j k kd₁ kd₂ name hj hk h1 h2
    by_cases hji : j = i <;> by_cases hki : k = i
    · rw [hji, hki]
    · rw [hji, hat] at hj
      rw [helse hki] at hk
      cases hj
      exact absurd h1 (hnew hki hk h2)
    · rw [hki, hat] at hk
      rw [helse hji] at hj
      cases hk
      exact absurd h2 (hnew hji hj h1)
    · rw [helse hji] at hj
      rw [helse hki] at hk
      exact h j k kd₁ kd₂ name hj hk h1 h2

/-! ## 3. What a call does to the table -/

theorem vfsBiglockRelease_spec (s : DevTable ν φ δ) :
    Wp True DevTable.vfsBiglockRelease (fun _ s' => s'.knowndevs = s.knowndevs)
      (fun _ s' => s'.knowndevs = s.knowndevs) s := by
  simp [DevTable.vfsBiglockRelease]

theorem vfsDoadd_spec [DecidableEq δ] (dname : CString) (mountable : Bool) (dev : Option δ)
    (fs : Option φ) (a : AddAnswer ν) (s : DevTable ν φ δ) :
    Wp True (vfsDoadd volname dname mountable dev fs a)
      (fun _ s' => ∃ kd', s'.knowndevs = s.knowndevs ++ [kd'] ∧
        ∀ kd ∈ s.knowndevs, ∀ name, AnswersTo volname kd name → ¬ AnswersTo volname kd' name)
      (fun _ s' => s'.knowndevs = s.knowndevs) s := by
  unfold vfsDoadd
  simp only [wp_bind, wp_assert, wp_modify]
  refine ⟨fun _ => ?_, fun _ => True.intro⟩
  cases a.vnode with
  | none => simp
  | some v =>
    rw [wp_ite]
    refine ⟨fun _ => ?_, fun _ => by simp⟩
    unfold addEntry
    simp only [wp_bind, wp_get, wp_ite]
    refine ⟨fun _ => ?_, fun hbad => ⟨fun _ => ?_, fun _ => by simp⟩⟩
    · exact (vfsBiglockRelease_spec _).imp (fun _ _ h => wp_fail.mpr h) fun _ _ h => h
    · rw [wp_modify, wp_releaseKnowndevs]
      refine ⟨_, rfl, badnames_eq_false_iff.mp ?_⟩
      simpa using hbad

/-- Only the lock and the entry that was found are looked at before the body. -/
theorem withMount_spec {body : Nat → Knowndev ν φ → DevProg ν φ δ Unit}
    (hnone : findmount devname s.knowndevs = none → E .enodev { s with knowndevsLock := .free })
    (hsome : ∀ i kd, findmount devname s.knowndevs = some (i, kd) →
      Wp True (body i kd) Q E { s with knowndevsLock := .held }) :
    Wp True (withMount devname body) Q E s := by
  unfold withMount acquireKnowndevs
  simp only [wp_bind, wp_get, wp_assert, wp_modify]
  refine ⟨fun _ => ?_, fun _ => True.intro⟩
  rcases hfind : findmount devname s.knowndevs with _ | ⟨i, kd⟩
  · simpa using hnone hfind
  · exact hsome i kd hfind

/-- `vfs_mount` gives the device of that name the file system that `mountfunc` made.  When it
fails the table is as before, and then there is no such device, or `mountfunc` failed, or the device
has a file system. -/
theorem vfsMount_spec (devname : CString) (answer : Except Errno (Option φ)) (s : DevTable ν φ δ) :
    Wp True (vfsMount devname answer)
      (fun _ s' => ∃ i kd fs, findmount devname s.knowndevs = some (i, kd) ∧ kd.kdFs = none ∧
        answer = .ok (some fs) ∧
        s'.knowndevs = s.knowndevs.modify i fun kd => { kd with kdFs := some fs })
      (fun _ s' => s'.knowndevs = s.knowndevs ∧ ((∃ e, answer = .error e) ∨
        ∀ i kd, findmount devname s.knowndevs = some (i, kd) → kd.kdFs ≠ none)) s := by
  refine withMount_spec (fun hnone => ⟨rfl, .inr fun i kd h => ?_⟩) fun i kd hfind => ?_
  · rw [hnone] at h
    exact (nomatch h)
  · unfold mountEntry
    rw [wp_ite]
    refine ⟨fun hsome => wp_unlockFail.mpr ⟨rfl, .inr fun j kd' h h0 => ?_⟩, fun hnone => ?_⟩
    · rw [hfind] at h
      cases h
      simp [h0] at hsome
    · simp only [wp_bind, wp_assert]
      refine ⟨fun _ => ⟨fun _ => ?_, fun _ => True.intro⟩, fun _ => True.intro⟩
      rcases answer with e | fs
      · exact wp_unlockFail.mpr ⟨rfl, .inl ⟨e, rfl⟩⟩
      · simp only [wp_bind, wp_assert, wp_modify, wp_releaseKnowndevs]
        refine ⟨fun hfs => ?_, fun _ => True.intro⟩
        obtain ⟨fs, rfl⟩ := Option.isSome_iff_exists.mp hfs
        exact ⟨i, kd, fs, hfind, by simpa using hnone, rfl, rfl⟩

/-- `vfs_unmount` takes the file system away from one device, or changes nothing. -/
theorem vfsUnmount_spec (devname : CString) (a : FsAnswer) (s : DevTable ν φ δ) :
    Wp True (vfsUnmount devname a)
      (fun _ s' => ∃ i, s'.knowndevs = s.knowndevs.modify i fun kd => { kd with kdFs := none })
      (fun _ s' => s'.knowndevs = s.knowndevs) s := by
  refine withMount_spec (fun _ => rfl) fun i kd _ => ?_
  unfold unmountEntry
  rw [wp_ite]
  refine ⟨fun _ => wp_unlockFail.mpr rfl, fun _ => ?_⟩
  simp only [wp_bind, wp_assert]
  refine ⟨fun _ => ⟨fun _ => ?_, fun _ => True.intro⟩, fun _ => True.intro⟩
  cases a.sync.or a.unmount with
  | none =>
    simp only [wp_bind, wp_modify, wp_releaseKnowndevs]
    exact ⟨i, rfl⟩
  | some e => exact wp_unlockFail.mpr rfl

theorem vfsUnmountall_spec (a : Nat → FsAnswer) (s : DevTable ν φ δ) : Wp True (vfsUnmountall a)
      (fun _ s' => s'.knowndevs = s.knowndevs.mapIdx fun i kd => unmountOne (a i) kd)
      (fun _ s' => s'.knowndevs = s.knowndevs) s := by
  simp [vfsUnmountall, acquireKnowndevs, releaseKnowndevs]

/-! ## 4. Every sequence of calls -/

/-- The entry that `findmount` finds is where it says, and is the device it was asked for. -/
theorem findmount_eq_some (h : findmount devname l = some (i, kd)) :
    l[i]? = some kd ∧ isMount devname kd = true := by
  obtain ⟨k, hk, hkd⟩ := Option.bind_eq_some_iff.mp h
  obtain ⟨kd', hkd', heq⟩ := Option.map_eq_some_iff.mp hkd
  cases heq
  obtain ⟨hlt, hp, -⟩ := findIdx?_eq_some_iff_getElem.mp hk
  rw [getElem?_eq_getElem hlt] at hkd'
  cases hkd'
  exact ⟨getElem?_eq_getElem hlt, hp⟩

/-- In an unambiguous table `findmount` finds every mountable device. -/
theorem findmount_of_isMount (hl : Unambiguous volname l) (hi : l[i]? = some kd)
    (hkd : isMount devname kd = true) : findmount devname l = some (i, kd) := by
  have hname : ∀ {kd : Knowndev ν φ}, isMount devname kd = true →
      AnswersTo volname kd devname := fun h => .inl (by simp_all [isMount])
  cases hfind : l.findIdx? (isMount devname) with
  | none =>
    have := findIdx?_eq_none_iff.mp hfind kd (mem_of_getElem? hi)
    rw [hkd] at this
    exact (nomatch this)
  | some k =>
    obtain ⟨hlt, hp, -⟩ := findIdx?_eq_some_iff_getElem.mp hfind
    have hki : k = i := hl k i _ kd devname (getElem?_eq_getElem hlt) hi (hname hp) (hname hkd)
    subst hki
    simp [findmount, hfind, hi]

variable (volname)

/-- The calls, with what the allocations and the file systems answer. -/
inductive DevCall (ν φ δ : Type)
  | adddev (devname : CString) (dev : δ) (mountable : Bool) (a : AddAnswer ν)
  | addfs (devname : CString) (fs : φ) (a : AddAnswer ν)
  | mount (devname : CString) (answer : Except Errno (Option φ))
  | unmount (devname : CString) (a : FsAnswer)
  | unmountall (a : Nat → FsAnswer)
  | biglockAcquire
  | biglockRelease

/-- One call. -/
def devCall [DecidableEq δ] : DevCall ν φ δ → DevProg ν φ δ Unit
  | .adddev devname dev mountable a => vfsAdddev volname devname dev mountable a
  | .addfs devname fs a => vfsAddfs volname devname fs a
  | .mount devname answer => vfsMount devname answer
  | .unmount devname a => vfsUnmount devname a
  | .unmountall a => vfsUnmountall a
  | .biglockAcquire => DevTable.vfsBiglockAcquire
  | .biglockRelease => DevTable.vfsBiglockRelease

/-- The table before the first device is registered, with whatever the devices hold. -/
def vfsBootstrap (devnumber : δ → Nat) : DevTable ν φ δ :=
  { knowndevs := [], knowndevsLock := .absent, vfsBiglockDepth := 0, devnumber }

/-- **What a mount must not do**: bring a volume whose name is a name of another known device.
Nothing is asked of the other calls. -/
def WellNamed (op : DevCall ν φ δ) (s : DevTable ν φ δ) : Prop :=
  ∀ devname fs v (i : Nat) kd (j : Nat) kd',
    op = .mount devname (.ok (some fs)) → volname fs = some v →
    s.knowndevs[i]? = some kd → isMount devname kd = true → kd.kdFs = none →
    j ≠ i → s.knowndevs[j]? = some kd' → ¬ AnswersTo volname kd' v

variable {volname}

theorem wellNamed_of_ne_mount {op : DevCall ν φ δ}
    (h : ∀ devname answer, op ≠ .mount devname answer) : WellNamed volname op s := by
  intro devname fs v i kd j kd' hop
  exact absurd hop (h devname _)

/-- **One mount, from an unambiguous table.** -/
theorem vfsMount_unambiguous_iff {answer : Except Errno (Option φ)}
    (hs : Unambiguous volname s.knowndevs) : Wp True (vfsMount devname answer)
      (fun _ s' => Unambiguous volname s'.knowndevs ↔ WellNamed volname (.mount devname answer) s)
      (fun _ s' => Unambiguous volname s'.knowndevs ↔ WellNamed volname (.mount devname answer) s)
      s := by
  refine (vfsMount_spec devname answer s).imp ?_ ?_
  · rintro _ s' ⟨i, kd, fs, hfind, hnone, rfl, hs'⟩
    obtain ⟨hi, hkd⟩ := findmount_eq_some hfind
    rw [hs', hs.mount_iff hi]
    constructor
    · intro h devname' fs' v k kd₁ j kd' hop hv hk hmount _ hj hkd'
      cases hop
      have hfind' := findmount_of_isMount hs hk hmount
      rw [hfind] at hfind'
      cases hfind'
      exact h v j kd' hv hj hkd'
    · intro h v j kd' hv hj hkd'
      exact h devname fs v i kd j kd' rfl hv hi hkd hnone hj hkd'
  · rintro _ s' ⟨hs', hwhy⟩
    rw [hs']
    refine ⟨fun _ => ?_, fun _ => hs⟩
    intro devname' fs' v i kd j kd' hop hv hi hmount hnone
    cases hop
    rcases hwhy with ⟨e, he⟩ | hbusy
    · exact (nomatch he)
    · exact absurd hnone (hbusy i kd (findmount_of_isMount hs hi hmount))

/-- **One call, from an unambiguous table**: the names stay apart exactly when the call is
`WellNamed`. -/
theorem devCall_unambiguous_iff [DecidableEq δ] (op : DevCall ν φ δ)
    (hs : Unambiguous volname s.knowndevs) : Wp True (devCall volname op)
      (fun _ s' => Unambiguous volname s'.knowndevs ↔ WellNamed volname op s)
      (fun _ s' => Unambiguous volname s'.knowndevs ↔ WellNamed volname op s) s := by
  -- Every call but a mount keeps the names apart, and is under no condition.
  have hkeep : ∀ {m : DevProg ν φ δ Unit}, (∀ devname answer, op ≠ .mount devname answer) →
      Wp True m (fun _ s' => Unambiguous volname s'.knowndevs)
        (fun _ s' => Unambiguous volname s'.knowndevs) s →
      Wp True m (fun _ s' => Unambiguous volname s'.knowndevs ↔ WellNamed volname op s)
        (fun _ s' => Unambiguous volname s'.knowndevs ↔ WellNamed volname op s) s := by
    intro m hop hm
    have hw : WellNamed volname op s := wellNamed_of_ne_mount hop
    exact hm.imp (fun _ _ h => iff_of_true h hw) fun _ _ h => iff_of_true h hw
  have hadd : ∀ dname mountable dev fs a, Wp True (vfsDoadd volname dname mountable dev fs a)
      (fun _ s' => Unambiguous volname s'.knowndevs)
      (fun _ s' => Unambiguous volname s'.knowndevs) s := by
    intro dname mountable dev fs a
    refine (vfsDoadd_spec dname mountable dev fs a s).imp ?_ ?_
    · rintro _ s' ⟨kd', hs', hnew⟩
      rw [hs']
      exact hs.append hnew
    · rintro _ s' hs'
      rwa [hs']
  cases op with
  | adddev devname dev mountable a =>
    exact hkeep (fun _ _ => nofun) (hadd devname mountable (some dev) none a)
  | addfs devname fs a => exact hkeep (fun _ _ => nofun) (hadd devname false none (some fs) a)
  | mount devname answer => exact vfsMount_unambiguous_iff hs
  | unmount devname a =>
    refine hkeep (fun _ _ => nofun) ((vfsUnmount_spec devname a s).imp ?_ ?_)
    · rintro _ s' ⟨i, hs'⟩
      rw [hs']
      exact hs.dropFs i
    · rintro _ s' hs'
      rwa [hs']
  | unmountall a =>
    refine hkeep (fun _ _ => nofun) ((vfsUnmountall_spec a s).imp ?_ ?_)
    · rintro _ s' hs'
      rw [hs']
      exact hs.unmountOne a
    · rintro _ s' hs'
      rwa [hs']
  | biglockAcquire => exact hkeep (fun _ _ => nofun) (wp_modify.mpr hs)
  | biglockRelease =>
    refine hkeep (fun _ _ => nofun) ((vfsBiglockRelease_spec s).imp ?_ ?_) <;>
    · intro _ s' hs'
      rwa [hs']

/-- **Names are unambiguous as long as no volume takes the name of another device.**  In every
state that calls lead to, each mount having been `WellNamed`, no string means two known devices;
and the first mount that is not `WellNamed` makes one that does. -/
theorem names_unambiguous [DecidableEq δ] {devnumber : δ → Nat} {s : DevTable ν φ δ}
    (h : Run (devCall volname) (WellNamed volname) (vfsBootstrap devnumber) s) :
    Unambiguous volname s.knowndevs ∧ ∀ op r s', devCall volname op s = some (r, s') →
      (Unambiguous volname s'.knowndevs ↔ WellNamed volname op s) := by
  have hs : Unambiguous volname s.knowndevs := by
    refine h.invariant (p := True) (I := fun s => Unambiguous volname s.knowndevs) ?_
      unambiguous_nil
    intro op s hop hs
    exact (devCall_unambiguous_iff op hs).imp (fun _ _ h => h.mpr hop) fun _ _ h => h.mpr hop
  refine ⟨hs, fun op r s' hop => ?_⟩
  exact Prog.Wp.of_some (I := fun s' => Unambiguous volname s'.knowndevs ↔ WellNamed volname op s)
    (devCall_unambiguous_iff op hs) hop

end Names

/-! ### Two disks -/

/-- The names of the disks. -/
def diskName (c : Char) : CString :=
  cString (['l', 'h', 'd', c].map fun c => BitVec.ofNat 8 c.toNat)

/-- Every allocation succeeds. -/
def goodAdd : AddAnswer Unit :=
  { lock := true, name := true, rawname := true, vnode := some (), kd := true, room := true }

/-- The table with the mountable disks `lhd0` and `lhd1`, and what is mounted on `lhd0`. -/
def twoDisks (fs : Option CString) : DevTable Unit CString Bool where
  knowndevs :=
    [{ kdName := diskName '0', kdRawname := some (mkrawname (diskName '0')), kdDevice := true,
       kdVnode := (), kdFs := fs },
     { kdName := diskName '1', kdRawname := some (mkrawname (diskName '1')), kdDevice := true,
       kdVnode := (), kdFs := none }]
  knowndevsLock := .free
  vfsBiglockDepth := 0
  devnumber := update (update (fun _ => 0) false 1) true 2

theorem run_twoDisks (legal : DevCall Unit CString Bool → DevTable Unit CString Bool → Prop)
    (hlegal : ∀ devname dev mountable a s, legal (.adddev devname dev mountable a) s) :
    Run (devCall some) legal (vfsBootstrap fun _ => 0) (twoDisks none) := by
  refine .step (.step .refl (hlegal (diskName '0') false true goodAdd _) rfl)
    (hlegal (diskName '1') true true goodAdd _) rfl

theorem mount_twoDisks (v : CString) : devCall some (.mount (diskName '0') (.ok (some v)))
    (twoDisks none) = some (.ok (), twoDisks (some v)) := rfl

/-- A volume with a name of its own can be mounted, and the names stay apart. -/
theorem names_unambiguous_twoDisks :
    Unambiguous some (twoDisks (some (diskName '7'))).knowndevs := by
  have hother : ∀ kd ∈ (twoDisks none).knowndevs, ¬ AnswersTo some kd (diskName '7') := by decide
  have hmount : WellNamed some (.mount (diskName '0') (.ok (some (diskName '7'))))
      (twoDisks none) := by
    intro devname fs v i kd j kd' hop hv _ _ _ _ hkd'
    cases hop
    cases hv
    exact hother kd' (mem_of_getElem? hkd')
  exact (names_unambiguous (.step (run_twoDisks _ fun _ _ _ _ _ => wellNamed_of_ne_mount nofun)
    hmount (mount_twoDisks _))).1

/-- A volume that calls itself `lhd1`, mounted on `lhd0`: now `lhd1` is two devices. -/
theorem lhd1_twice : ∃ s : DevTable Unit CString Bool,
      Run (devCall some) (fun _ _ => True) (vfsBootstrap fun _ => 0) s ∧
      ∃ kd kd' : Knowndev Unit CString, s.knowndevs[0]? = some kd ∧ s.knowndevs[1]? = some kd' ∧
        AnswersTo some kd (diskName '1') ∧ AnswersTo some kd' (diskName '1') := by
  have hrun : Run (devCall some) (fun _ _ => True) (vfsBootstrap fun _ => 0) (twoDisks none) :=
    run_twoDisks _ fun _ _ _ _ _ => True.intro
  refine ⟨twoDisks (some (diskName '1')), hrun.step True.intro (mount_twoDisks _), _, _, rfl, rfl,
    ?_, ?_⟩
  · exact .inr (.inr rfl)
  · exact .inl rfl

end Os161
