/-
# A directory is a finite map

`sfs_dir_findname`, `sfs_dir_link` and `sfs_dir_unlink` work on an array of slots.  What they are
FOR is a finite map from names to inode numbers, and this file proves that this is what a user of
them sees, whatever is called in whatever order.

The user's view is the HISTORY: a list of what was linked, unlinked and found.  `lastLinked` reads
off it what a name stands for: the entry linked last under it and not unlinked since.  The array
and the history are tied together by `Tracks`, which every call keeps, and from which
`FiniteMap` follows in every state of every run.

Nothing is assumed about the volume.  Between two calls it may change in any way, so that any call
of `sfs_writedir` may succeed or fail; only the directory itself is left alone (`elsewhere`).
-/
import Os161.Sfs.Dir
import Os161.Sfs.Pieces

namespace Os161

open List SfsDir

/-! ## 1. Histories -/

/-- What has happened in a directory. -/
inductive DirEvent where
  /-- `sfs_dir_link` has put the name into the slot. -/
  | linked (name : CString) (ino slot : Nat)
  /-- `sfs_dir_unlink` has emptied the slot. -/
  | unlinked (slot : Nat)
  /-- `sfs_dir_findname` has returned the slot. -/
  | found (slot : Nat)
  deriving DecidableEq

/-- The entry linked last under a name and not unlinked since: its number and its slot.  The newest
event comes first. -/
def lastLinked : List DirEvent → CString → Option (Nat × Nat)
  | [], _ => none
  | .linked name ino slot :: h, n => if n = name then some (ino, slot) else lastLinked h n
  | .unlinked slot :: h, n => (lastLinked h n).filter fun x => x.2 ≠ slot
  | .found _ :: h, n => lastLinked h n

/-- The live entries of the slots `l` are those of the history. -/
def Tracks (l : List SfsDir) (h : List DirEvent) : Prop :=
  ∀ (name : CString) (ino slot : Nat), lastLinked h name = some (ino, slot) ↔
    ∃ d, l[slot]? = some d ∧ d.Live ∧ d.sfdIno = ino ∧ d.name = name

section Tracks

variable {l l' : List SfsDir} {h : List DirEvent} {name : CString} {ino slot : Nat}

theorem tracks_nil : Tracks [] [] := by
  intro name ino slot
  simp [lastLinked]

theorem Tracks.link (ht : Tracks l h) (hfree : IsFree l slot) (hino : ino ≠ sfsNoino)
    (hname : name.strlen + 1 ≤ sfsNamelen) (hnew : lastLinked h name = none)
    (hc : Changed l slot (.make ino name) l') : Tracks l' (.linked name ino slot :: h) := by
  intro n i k
  rw [lastLinked, hc k]
  by_cases hk : k = slot
  · -- the slot that was written
    rw [if_pos hk]
    constructor
    · intro hl
      by_cases hn : n = name
      · rw [if_pos hn] at hl
        obtain ⟨rfl, -⟩ := Prod.mk.inj (Option.some.inj hl)
        exact ⟨_, rfl, hino, rfl, (name_make hname).trans hn.symm⟩
      · rw [if_neg hn] at hl
        obtain ⟨d, hd, hlive, -⟩ := (ht n i k).mp hl
        rcases hfree with rfl | ⟨d', hd', hdead⟩
        · rw [hk, getElem?_eq_none (Nat.le_refl _)] at hd
          cases hd
        · rw [hk, hd'] at hd
          exact absurd (Option.some.inj hd ▸ hlive) hdead
    · rintro ⟨d, hd, -, rfl, rfl⟩
      cases hd
      rw [name_make hname, if_pos rfl, hk]
      rfl
  · rw [if_neg hk]
    by_cases hn : n = name
    · -- the name was in no other slot
      rw [if_pos hn, hn]
      constructor
      · intro hl
        exact absurd (Prod.mk.inj (Option.some.inj hl)).2.symm hk
      · intro hd
        have := (ht name i k).mpr hd
        rw [hnew] at this
        cases this
    · rw [if_neg hn]
      exact ht n i k

theorem Tracks.unlink (ht : Tracks l h) (hc : Changed l slot .zero l') :
    Tracks l' (.unlinked slot :: h) := by
  intro n i k
  rw [lastLinked, Option.filter_eq_some_iff, hc k]
  by_cases hk : k = slot
  · rw [if_pos hk]
    constructor
    · rintro ⟨-, hne⟩
      exact absurd hk (by simpa using hne)
    · rintro ⟨d, hd, hlive, -⟩
      cases hd
      exact absurd hlive not_live_zero
  · rw [if_neg hk, ← ht n i k]
    simp [hk]

theorem Tracks.found_eq (ht : Tracks l h) {r : DirScan} (hr : Finds l name r) :
    r.found = lastLinked h name := by
  cases hf : r.found with
  | some x =>
    obtain ⟨i, k⟩ := x
    exact ((ht name i k).mpr (hr.hit i k hf)).symm
  | none =>
    cases hl : lastLinked h name with
    | none => rfl
    | some x =>
      obtain ⟨i, k⟩ := x
      obtain ⟨d, hd, hlive, -, hname⟩ := (ht name i k).mp hl
      exact absurd hname (hr.miss hf d (mem_of_getElem? hd) hlive)

end Tracks

/-! ## 2. Writing a slot -/

/-- The slots of the directory at `v`. -/
def DirFs.dirSlots (s : DirFs) (v : Nat) : List SfsDir := s.slots (s.fs.heap v).svIno

section Writing

variable {s : DirFs} {v slot : Nat} {l : List SfsDir} {sd : SfsDir}

theorem length_writeSlot (h : slot ≤ l.length) :
    (writeSlot l slot sd).length = max l.length (slot + 1) := by
  unfold writeSlot
  split_ifs with hlt
  · rw [length_set]
    omega
  · simp only [length_append, length_replicate, length_singleton]
    omega

theorem changed_writeSlot (h : slot ≤ l.length) (sd : SfsDir) :
    Changed l slot sd (writeSlot l slot sd) := by
  rcases Nat.lt_or_eq_of_le h with hlt | heq
  · rw [writeSlot, if_pos hlt]
    exact changed_set hlt sd
  · exact IsFree.changed (.inl heq) sd

theorem heap_extend (fs : SfsFs) (v off : Nat) :
    ((fs.extend v off).heap v).svIno = (fs.heap v).svIno ∧
      ((fs.extend v off).heap v).svI.sfiType = (fs.heap v).svI.sfiType := by
  unfold SfsFs.extend
  split_ifs
  · rw [SfsFs.heap_setInode_self]
    exact ⟨rfl, rfl⟩
  · exact ⟨rfl, rfl⟩

theorem SfsFs.extend_of_le {fs : SfsFs} {off : Nat} (h : off ≤ (fs.heap v).svI.sfiSize) :
    fs.extend v off = fs := if_neg (Nat.not_lt.mpr h)

/-- **`sfs_writedir`**, in any state of the volume: it writes the slot, or leaves the directory as
it was. -/
theorem IsDir.wp_writedir (h : IsDir s v l) (hslot : slot ≤ l.length) (sd : SfsDir) :
    Wp True (sfsWritedir v sd slot) (fun _ s' => IsDir s' v (writeSlot l slot sd))
      (fun _ s' => IsDir s' v l) s := by
  have hsize : (s.fs.heap v).svI.sfiSize = 64 * l.length := h.size
  rw [sfsWritedir]
  simp only [wp_bind, wp_attempt, onVolume, wp_zoom]
  refine (sfsBmap_light _ true).imp ?_ ?_
  · rintro b fs' ⟨⟨hlight, -⟩, hblock⟩
    simp only [sfsDirSize, sectSize, wp_modify] at hblock ⊢
    obtain ⟨hino, htype⟩ := heap_extend fs' v (slot * 64 + 64)
    refine ⟨?_, ?_, ?_⟩
    · rw [htype, (hlight.same v).2.1]
      exact h.type
    · rw [hino]
      simp only [Function.update_self]
      rw [hlight.ino, h.slots]
    · have hu : u32 (slot * 64 + 64) = slot * 64 + 64 := Nat.mod_eq_of_lt (by omega)
      rw [size_extend, hlight.size, length_writeSlot hslot, hu, hsize]
      simp only [sfsDirSize]
      split_ifs <;> omega
  · rintro e fs' ⟨-, hlight⟩
    simp only [sfsDirSize, wp_modify, wp_fail]
    rw [SfsFs.extend_of_le (by rw [hlight.size]; omega)]
    refine ⟨?_, ?_, ?_⟩
    · rw [(hlight.same v).2.1]
      exact h.type
    · rw [hlight.ino]
      exact h.slots
    · rw [hlight.size]
      exact h.size

end Writing

/-! ## 3. The calls -/

/-- What is called in a run. -/
inductive DirOp where
  | findname (name : CString)
  | link (name : CString) (ino : Nat)
  | unlink (slot : Nat)
  /-- Something else changes the volume. -/
  | elsewhere (s : DirFs)

/-- Note down an event. -/
def noteEvent (e : DirEvent) : Prog Errno (DirFs × List DirEvent) Unit :=
  modify fun st => (st.1, e :: st.2)

/-- A call on the directory at `v`, and what it adds to the history.  A call that fails adds
nothing. -/
def dirCall (v : Nat) : DirOp → Prog Errno (DirFs × List DirEvent) Unit
  | .findname name => do
    let r ← onFst (sfsDirFindname v name)
    match r.found with
    | some (_, slot) => noteEvent (.found slot)
    | none => fail .enoent
  | .link name ino => do
    let slot ← onFst (sfsDirLink v name ino)
    noteEvent (.linked name ino slot)
  | .unlink slot => do
    onFst (sfsDirUnlink v slot)
    noteEvent (.unlinked slot)
  | .elsewhere s => modify fun st => (s, st.2)

/-- The calls that may be made: an entry is linked to a number that is not 0, and a slot is
unlinked only if a search has returned it. -/
def dirLegal (v : Nat) : DirOp → DirFs × List DirEvent → Prop
  | .findname _, _ => True
  | .link _ ino, _ => ino ≠ sfsNoino
  | .unlink slot, (_, h) => .found slot ∈ h
  | .elsewhere s', (s, _) => s'.dirSlots v = s.dirSlots v ∧
      (s'.fs.heap v).svI.sfiType = (s.fs.heap v).svI.sfiType ∧
      (s'.fs.heap v).svI.sfiSize = (s.fs.heap v).svI.sfiSize

/-- Every live entry has been written by `sfs_dir_link`, with a name that fits. -/
def Made (l : List SfsDir) : Prop :=
  ∀ d ∈ l, d.Live → d.name.strlen ≤ 59 ∧ d = .make d.sfdIno d.name

/-- What holds between calls. -/
structure DirState (v : Nat) (l : List SfsDir) (st : DirFs × List DirEvent) : Prop where
  dir : IsDir st.1 v l
  distinct : Distinct l
  made : Made l
  tracks : Tracks l st.2
  seen : ∀ slot, .found slot ∈ st.2 → slot < l.length

section Calls

variable {v slot ino : Nat} {l l' : List SfsDir} {s s' : DirFs} {h : List DirEvent} {name : CString}

theorem Changed.made {e : SfsDir} (hc : Changed l slot e l') (hl : Made l)
    (he : e.Live → e.name.strlen ≤ 59 ∧ e = .make e.sfdIno e.name) : Made l' := by
  intro d hd hlive
  rcases hc.mem hd with rfl | hd
  · exact he hlive
  · exact hl d hd hlive

section

variable (hs : DirState v l (s, h))

include hs

theorem DirState.findname (name : CString) : Wp False (sfsDirFindname v name)
      (fun r s' => s' = s ∧ Finds l name r ∧ r.found = lastLinked h name) (fun _ _ => False) s :=
  (sfsDirFindname_spec hs.dir (fun hn => hn hs.distinct) name).post fun _ _ hr =>
    ⟨hr.1, hr.2, hs.tracks.found_eq hr.2⟩

/-- **`sfs_dir_link`.** -/
theorem DirState.link (name : CString) (ino : Nat) : Wp True (sfsDirLink v name ino)
      (fun slot s' => lastLinked h name = none ∧ name.strlen + 1 ≤ sfsNamelen ∧ IsFree l slot ∧
        IsDir s' v (writeSlot l slot (.make ino name)))
      (fun _ s' => IsDir s' v l) s := by
  refine hs.dir.wp_dirLink (fun _ => trivial) (fun _ => hs.dir) fun slot hmiss hfits hfree => ?_
  refine (hs.dir.wp_writedir hfree.le _).bind fun _ s' hs' => ?_
  refine wp_pure.mpr ⟨Option.eq_none_iff_forall_ne_some.mpr ?_, hfits, hfree, hs'⟩
  rintro ⟨i, k⟩ hlinked
  obtain ⟨d, hk, hlive, -, hname⟩ := (hs.tracks name i k).mp hlinked
  exact hmiss d (mem_of_getElem? hk) hlive hname

theorem DirState.linked (hino : ino ≠ sfsNoino)
    (hnew : lastLinked h name = none) (hname : name.strlen + 1 ≤ sfsNamelen)
    (hfree : IsFree l slot) (hd : IsDir s' v (writeSlot l slot (.make ino name))) :
    DirState v (writeSlot l slot (.make ino name)) (s', .linked name ino slot :: h) where
  dir := hd
  distinct := by
    refine (hfree.changed _).distinct hs.distinct fun _ d hmem hlive he => ?_
    obtain ⟨k, hk⟩ := mem_iff_getElem?.mp hmem
    rw [name_make hname] at he
    have := (hs.tracks name d.sfdIno k).mpr ⟨d, hk, hlive, rfl, he⟩
    rw [hnew] at this
    cases this
  made := (hfree.changed _).made hs.made fun _ => by
    rw [name_make hname]
    exact ⟨Nat.le_of_succ_le_succ hname, rfl⟩
  tracks := hs.tracks.link hfree hino hname hnew (hfree.changed _)
  seen := fun k hk => by
    have := hs.seen k (by simpa using hk)
    rw [length_writeSlot hfree.le]
    omega

theorem DirState.unlinked (hslot : slot < l.length) (hd : IsDir s' v (writeSlot l slot .zero)) :
    DirState v (writeSlot l slot .zero) (s', .unlinked slot :: h) where
  dir := hd
  distinct := (changed_writeSlot hslot.le _).distinct hs.distinct
    fun hlive => absurd hlive not_live_zero
  made := (changed_writeSlot hslot.le _).made hs.made fun hlive => absurd hlive not_live_zero
  tracks := hs.tracks.unlink (changed_writeSlot hslot.le _)
  seen := fun k hk => by
    have := hs.seen k (by simpa using hk)
    rw [length_writeSlot hslot.le]
    omega

theorem DirState.found (hl : lastLinked h name = some (ino, slot)) :
    DirState v l (s, .found slot :: h) where
  __ := hs
  seen := fun k hk => by
    rcases mem_cons.mp hk with hk | hk
    · obtain rfl : k = slot := DirEvent.found.inj hk
      obtain ⟨d, hd, -⟩ := (hs.tracks name ino k).mp hl
      exact (List.getElem?_eq_some_iff.mp hd).1
    · exact hs.seen k hk

end

/-- **Every call keeps the directory and the history together.** -/
theorem dirState_call (op : DirOp) (st : DirFs × List DirEvent) (hl : dirLegal v op st)
    (hs : ∃ l, DirState v l st) :
    Wp True (dirCall v op) (fun _ st' => ∃ l, DirState v l st')
      (fun _ st' => ∃ l, DirState v l st') st := by
  obtain ⟨l, hs⟩ := hs
  cases op with
  | findname name =>
    rw [dirCall, wp_bind, wp_onFst]
    refine (hs.findname name).mono (fun hf => hf.elim) ?_ (fun _ _ hf => hf.elim)
    rintro r _ ⟨rfl, -, hfound⟩
    cases hr : r.found with
    | none => exact wp_fail.mpr ⟨l, hs⟩
    | some x => exact wp_modify.mpr ⟨l, hs.found (hfound.symm.trans hr)⟩
  | link name ino =>
    rw [dirCall, wp_bind, wp_onFst]
    refine (hs.link name ino).imp ?_
      fun _ s' hd => ⟨l, hd, hs.distinct, hs.made, hs.tracks, hs.seen⟩
    rintro slot s' ⟨hnew, hname, hfree, hd⟩
    exact wp_modify.mpr ⟨_, hs.linked hl hnew hname hfree hd⟩
  | unlink slot =>
    have hslot := hs.seen slot hl
    rw [dirCall, wp_bind, wp_onFst]
    refine (hs.dir.wp_writedir hslot.le .zero).imp ?_
      fun _ s' hd => ⟨l, hd, hs.distinct, hs.made, hs.tracks, hs.seen⟩
    exact fun _ s' hd => wp_modify.mpr ⟨_, hs.unlinked hslot hd⟩
  | elsewhere s' =>
    obtain ⟨hslots, htype, hsize⟩ := hl
    refine wp_modify.mpr ⟨l, ⟨?_, ?_, ?_⟩, hs.distinct, hs.made, hs.tracks, hs.seen⟩
    · exact htype.trans hs.dir.type
    · exact hslots.trans hs.dir.slots
    · exact hsize.trans hs.dir.size

end Calls

/-! ## 4. The map -/

/-- The directory at `v` is the finite map that the history `h` describes. -/
structure FiniteMap (v : Nat) (s : DirFs) (h : List DirEvent) : Prop where
  /-- The live entries have distinct names, -/
  distinct : Distinct (s.dirSlots v)
  /-- which have at most 59 characters, and stand in the entry with a zero behind them. -/
  made : Made (s.dirSlots v)
  /-- A search ends, without a change, and finds what the history says, or nothing. -/
  findname : ∀ name, ∃ r, sfsDirFindname v name s = some (.ok r, s) ∧ r.found = lastLinked h name
  /-- A name that is there cannot be linked again. -/
  eexist : ∀ name ino, lastLinked h name ≠ none → sfsDirLink v name ino s = some (.error .eexist, s)
  /-- A name that is too long cannot be linked. -/
  enametoolong : ∀ name ino, 59 < name.strlen →
    sfsDirLink v name ino s = some (.error .enametoolong, s)
  /-- A link is written to a slot that is not live, and to no other. -/
  link : ∀ name ino slot s', sfsDirLink v name ino s = some (.ok slot, s') →
    (∀ d, (s.dirSlots v)[slot]? = some d → ¬ d.Live) ∧
      Changed (s.dirSlots v) slot (.make ino name) (s'.dirSlots v)
  /-- Unlinking a slot that was found empties this slot, and no other. -/
  unlink : ∀ slot s', .found slot ∈ h → sfsDirUnlink v slot s = some (.ok (), s') →
    Changed (s.dirSlots v) slot .zero (s'.dirSlots v)
  /-- A call that fails changes no slot. -/
  failed : ∀ e s', (∃ name ino, sfsDirLink v name ino s = some (.error e, s')) ∨
      (∃ slot, .found slot ∈ h ∧ sfsDirUnlink v slot s = some (.error e, s')) →
    s'.dirSlots v = s.dirSlots v

section Map

variable {v : Nat} {l : List SfsDir} {s s₀ : DirFs} {h : List DirEvent} {name : CString}

theorem DirState.refused (hs : DirState v l (s, h)) (ino : Nat)
    (hbad : lastLinked h name ≠ none ∨ 59 < name.strlen) : sfsDirLink v name ino s =
      some (.error (if lastLinked h name = none then .enametoolong else .eexist), s) := by
  have hwp : Wp False (sfsDirLink v name ino) (fun _ _ => False) (fun e s' =>
      e = (if lastLinked h name = none then .enametoolong else .eexist) ∧ s' = s) s := by
    rw [sfsDirLink]
    refine (hs.findname name).bind_ok ?_
    rintro r _ ⟨rfl, -, hfound⟩
    rw [← hfound] at hbad ⊢
    cases hr : r.found with
    | some x =>
      exact wp_fail.mpr ⟨rfl, rfl⟩
    | none =>
      have hlong : sfsNamelen < name.strlen + 1 :=
        Nat.succ_lt_succ (hbad.resolve_left (not_not.mpr hr))
      rw [if_neg (by simp), if_pos hlong]
      exact wp_fail.mpr ⟨rfl, rfl⟩
  obtain ⟨e, s', hrun, rfl, rfl⟩ := hwp.exists_error
  exact hrun

theorem DirState.lastLinked_long (hs : DirState v l (s, h)) (hlong : 59 < name.strlen) :
    lastLinked h name = none := by
  cases hl : lastLinked h name with
  | none => rfl
  | some x =>
    obtain ⟨d, hd, hlive, -, rfl⟩ := (hs.tracks name x.1 x.2).mp hl
    exact absurd hlong (Nat.not_lt.mpr (hs.made d (mem_of_getElem? hd) hlive).1)

theorem DirState.finiteMap (hs : DirState v l (s, h)) : FiniteMap v s h := by
  have hslots : s.dirSlots v = l := hs.dir.slots
  refine ⟨hslots ▸ hs.distinct, hslots ▸ hs.made, fun name => ?_,
    fun name ino hne => ?_, fun name ino hlong => ?_, fun name ino slot s' hrun => ?_,
    fun slot s' hseen hrun => ?_, fun e s' hrun => ?_⟩
  · obtain ⟨r, s', hrun, rfl, -, hfound⟩ := (hs.findname name).exists_ok
    exact ⟨r, hrun, hfound⟩
  · rw [hs.refused ino (.inl hne), if_neg hne]
  · rw [hs.refused ino (.inr hlong), if_pos (hs.lastLinked_long hlong)]
  · obtain ⟨-, -, hfree, hd⟩ := (hs.link name ino).of_ok hrun
    rw [hslots]
    refine ⟨hfree.not_live, ?_⟩
    rw [DirFs.dirSlots, hd.slots]
    exact hfree.changed _
  · have hslot := (hs.seen slot hseen).le
    have hd : IsDir s' v _ := (hs.dir.wp_writedir hslot .zero).of_ok hrun
    rw [hslots, DirFs.dirSlots, hd.slots]
    exact changed_writeSlot hslot _
  · rw [hslots, DirFs.dirSlots]
    rcases hrun with ⟨name, ino, hrun⟩ | ⟨slot, hseen, hrun⟩
    · exact ((hs.link name ino).of_error hrun).slots
    · exact ((hs.dir.wp_writedir (hs.seen slot hseen).le .zero).of_error hrun).slots

/-- **A directory is a finite map.**  From an empty directory on, in every state that calls of
`sfs_dir_findname`, `sfs_dir_link` and `sfs_dir_unlink` lead to. -/
theorem directory_is_map (h₀ : IsDir s₀ v [])
    (hrun : Run (dirCall v) (dirLegal v) (s₀, []) (s, h)) : FiniteMap v s h := by
  have hinit : ∃ l, DirState v l (s₀, []) :=
    ⟨[], h₀, fun _ _ _ _ hd => by simp at hd, by simp [Made], tracks_nil, by simp⟩
  obtain ⟨l, hs⟩ := hrun.invariant dirState_call hinit
  exact hs.finiteMap

/-- An empty directory on a volume that has no free block. -/
def emptyDir : DirFs where
  fs := { fullVolume 0 with
    heap := fun _ => ⟨vnodeInit, { emptyInode with sfiType := .dir, sfiDirect := fun _ => 1 }, 3,
      false⟩ }
  slots := fun _ => []

/-- A run in which the parent is linked. -/
theorem directory_is_map_dotdot :
    ∃ s, Run (dirCall 0) (dirLegal 0) (emptyDir, []) (s, [.linked dotdot 1 0]) ∧
      FiniteMap 0 s [.linked dotdot 1 0] := by
  obtain ⟨⟨s, h⟩, hcall, hh⟩ := Prog.exists_of_map (m := dirCall 0 (.link dotdot 1))
    (s := (emptyDir, [])) (r := .ok ()) (f := Prod.snd) (b := [.linked dotdot 1 0])
    (by decide +kernel)
  obtain rfl : h = [.linked dotdot 1 0] := hh
  have hrun : Run (dirCall 0) (dirLegal 0) (emptyDir, []) (s, [.linked dotdot 1 0]) :=
    Run.refl.andThen (.link dotdot 1) (show 1 ≠ sfsNoino by decide) hcall
  exact ⟨s, hrun, directory_is_map ⟨rfl, rfl, rfl⟩ hrun⟩

end Map

end Os161
