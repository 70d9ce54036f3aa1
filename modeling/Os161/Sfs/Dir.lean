/-
# `kern/fs/sfs/sfs_vnode.c`: directories and names

A directory is an array of slots.  A slot whose inode number is 0 is EMPTY; any other names an
object.  `sfs_dir_findname` looks at every slot, `sfs_dir_link` fills an empty slot or adds one at
the end, and `sfs_dir_unlink` empties a slot.  The operations on names are made of these three,
of `sfs_loadvnode`, `sfs_makeobj` and `VOP_DECREF`, and of the link counts they keep by hand.

The slots are an EXACT store here: a read returns what was written last.  The blocks of the
directory are the real ones: a write goes through `sfs_bmap`, which may have to allocate a block,
and it adjusts the length of the directory.  What the buffer cache makes of the bytes in those
blocks is the subject of `Sfs/File.lean`, and not repeated.
-/
import Os161.Sfs.File

namespace Os161

open List

/-! ## 1. Entries -/

namespace SfsDir

/-- The name in an entry; the last byte of the array is made a zero before it is read. -/
def name (sd : SfsDir) : CString := cString (sd.sfdName.toList.take (sfsNamelen - 1))

/-- The entry that `bzero` makes: an empty slot. -/
def zero : SfsDir := ⟨sfsNoino, fun _ => 0⟩

/-- A zeroed entry with a number and, after `strcpy`, a name. -/
def make (ino : Nat) (name : CString) : SfsDir := ⟨ino, Bytes.ofList name.1⟩

/-- The slot is in use. -/
abbrev Live (sd : SfsDir) : Prop := sd.sfdIno ≠ sfsNoino

theorem not_live_zero : ¬ zero.Live := fun h => h rfl

theorem name_make {ino : Nat} {s : CString} (h : s.strlen + 1 ≤ sfsNamelen) :
    (make ino s).name = s := by
  have hlen : s.1.length + 1 ≤ 60 := h
  have htake : (s.1 ++ replicate (60 - s.1.length) (0 : Byte)).take 59 =
      s.1 ++ replicate (59 - s.1.length) 0 := by
    rw [take_append, take_of_length_le (by omega), take_replicate]
    congr 2
    omega
  have hle : s.1.length ≤ sfsNamelen := Nat.le_of_succ_le hlen
  rw [name, make, Bytes.toList_ofList hle]
  exact (congrArg cString htake).trans (cString_append_replicate s _)

end SfsDir

/-- The directory `".."` is an entry for. -/
def dotdot : CString := ⟨[46, 46], by decide⟩

/-- `"."`. -/
def dot : CString := ⟨[46], by decide⟩

/-! ## 2. Directory I/O -/

/-- A volume, and the slots of its directories by inode number. -/
structure DirFs where
  fs : SfsFs
  slots : Nat → List SfsDir

/-- A program over a volume with directories. -/
abbrev Dirs (α : Type) := Prog Errno DirFs α

/-- Run a program of the volume. -/
def onVolume {α : Type} (m : Sfs α) : Dirs α :=
  zoom DirFs.fs (fun s fs => { s with fs := fs }) m

/-- An array of slots after a write to slot `k`; a write past the end leaves zeros in between. -/
def writeSlot (l : List SfsDir) (k : Nat) (sd : SfsDir) : List SfsDir :=
  if k < l.length then l.set k sd else l ++ List.replicate (k - l.length) .zero ++ [sd]

/-- `sfs_readdir`.  There is nothing to be read past the end, and that is a panic. -/
def sfsReaddir (v slot : Nat) : Dirs SfsDir := do
  let s ← get
  match (s.slots (s.fs.heap v).svIno)[slot]? with
  | some sd => pure sd
  | none => halt

/-- `sfs_writedir`: the one block that the slot is in is mapped, and the length is adjusted to where
the transfer got. -/
def sfsWritedir (v : Nat) (sd : SfsDir) (slot : Nat) : Dirs Unit := do
  let actualpos := slot * sfsDirSize
  match ← attempt (onVolume (sfsBmap v (actualpos / sectSize) true)) with
  | .error e => do
    modify fun s => { s with fs := s.fs.extend v actualpos }
    fail e
  | .ok _ =>
    modify fun s =>
      { fs := s.fs.extend v (actualpos + sfsDirSize)
        slots := Function.update s.slots (s.fs.heap v).svIno
          (writeSlot (s.slots (s.fs.heap v).svIno) slot sd) }

/-- `sfs_dir_nentries`. -/
def sfsDirNentries (v : Nat) : Dirs Nat := do
  let sv ← onVolume (vnodeAt v)
  assert (sv.svI.sfiType = .dir)
  assert (sv.svI.sfiSize % sfsDirSize = 0)
  pure (sv.svI.sfiSize / sfsDirSize)

/-- What `sfs_dir_findname` has found so far: the number and the slot of the name, and an empty
slot. -/
structure DirScan where
  found : Option (Nat × Nat)
  emptyslot : Option Nat

/-- The body of the loop of `sfs_dir_findname`. -/
def sfsDirLook (name : CString) (i : Nat) (tsd : SfsDir) (r : DirScan) : Dirs DirScan :=
  if tsd.sfdIno = sfsNoino then pure { r with emptyslot := some i }
  else if tsd.name = name then do
    -- each name may legally appear only once
    assert (r.found = none)
    pure { r with found := some (tsd.sfdIno, i) }
  else pure r

/-- The loop of `sfs_dir_findname`. -/
def sfsDirScan (v : Nat) (name : CString) : List Nat → DirScan → Dirs DirScan
  | [], r => pure r
  | i :: is, r => do
    let tsd ← sfsReaddir v i
    let r ← sfsDirLook name i tsd r
    sfsDirScan v name is r

/-- `sfs_dir_findname`, with all it may hand back.  If nothing is found the C function returns
`ENOENT`, and hands back the empty slot nevertheless. -/
def sfsDirFindname (v : Nat) (name : CString) : Dirs DirScan := do
  let nentries ← sfsDirNentries v
  sfsDirScan v name (List.range nentries) ⟨none, none⟩

/-- The slot `sfs_dir_link` writes to. -/
def sfsDirPlace (v : Nat) : Option Nat → Dirs Nat
  | some slot => pure slot
  | none => sfsDirNentries v

/-- `sfs_dir_link`, which hands back the slot. -/
def sfsDirLink (v : Nat) (name : CString) (ino : Nat) : Dirs Nat := do
  let r ← sfsDirFindname v name
  if r.found.isSome then fail .eexist
  else if sfsNamelen < name.strlen + 1 then fail .enametoolong
  else do
    let slot ← sfsDirPlace v r.emptyslot
    sfsWritedir v (.make ino name) slot
    pure slot

/-- `sfs_dir_unlink`. -/
def sfsDirUnlink (v slot : Nat) : Dirs Unit := sfsWritedir v .zero slot

/-- `sfs_lookonce`: a vnode for the name, and its slot. -/
def sfsLookonce (v : Nat) (name : CString) : Dirs (Nat × Nat) := do
  let r ← sfsDirFindname v name
  match r.found with
  | none => fail .enoent
  | some (ino, slot) => do
    let ret ← onVolume (sfsLoadvnode ino .inval)
    let sv ← onVolume (vnodeAt ret)
    -- "Link count of file found in dir is 0"
    assert (sv.svI.sfiLinkcount ≠ 0)
    pure (ret, slot)

/-! ## 3. Operations on names -/

/-- `sfi_linkcount++` on a `uint16_t`, and the inode is dirty. -/
def incLinks (v : Nat) : Dirs Unit :=
  onVolume (modifyInode v fun n => { n with sfiLinkcount := (n.sfiLinkcount + 1) % 65536 })

/-- `KASSERT(sfi_linkcount > 0)`, `sfi_linkcount--`, and the inode is dirty. -/
def decLinks (v : Nat) : Dirs Unit := do
  let sv ← onVolume (vnodeAt v)
  assert (0 < sv.svI.sfiLinkcount)
  onVolume (modifyInode v fun n => { n with sfiLinkcount := n.sfiLinkcount - 1 })

/-- The inode number of a vnode. -/
def inoOf (v : Nat) : Dirs Nat := do
  let sv ← onVolume (vnodeAt v)
  pure sv.svIno

/-- `sfs_dir_link` to the object of a vnode, and one link more on it if that succeeds. -/
def linkObject (v : Nat) (name : CString) (f : Nat) : Dirs Nat := do
  let ino ← inoOf f
  let slot ← sfsDirLink v name ino
  incLinks f
  pure slot

/-- The part of `sfs_creat` that makes a file. -/
def sfsCreatNew (v : Nat) (name : CString) : Dirs Nat := do
  let newguy ← onVolume (sfsMakeobj .file)
  match ← attempt (linkObject v name newguy) with
  | .error e => do
    onVolume (vopDecref newguy)
    fail e
  | .ok _ => pure newguy

/-- `sfs_creat`. -/
def sfsCreat (v : Nat) (name : CString) (excl : Bool) : Dirs Nat := do
  let r ← sfsDirFindname v name
  match r.found with
  | none => sfsCreatNew v name
  | some (ino, _) => if excl then fail .eexist else onVolume (sfsLoadvnode ino .inval)

/-- `sfs_link`. -/
def sfsLink (dir : Nat) (name : CString) (file : Nat) : Dirs Unit := do
  let _ ← linkObject dir name file

/-- What `sfs_remove` and `sfs_rmdir` end with: the entry is erased, and the link counted off. -/
def unlinkVictim (v slot victim : Nat) : Dirs Unit := do
  let result ← attempt (do sfsDirUnlink v slot; decLinks victim)
  onVolume (vopDecref victim)
  ofResult result

/-- `sfs_remove`. -/
def sfsRemove (dir : Nat) (name : CString) : Dirs Unit := do
  let (victim, slot) ← sfsLookonce dir name
  unlinkVictim dir slot victim

/-- `sfs_mkdir`.  What `sfs_dir_findname` has found is not looked at, and an error on the way leaves
what has been done. -/
def sfsMkdir (v : Nat) (name : CString) : Dirs Unit := do
  let _ ← sfsDirFindname v name
  let newguy ← onVolume (sfsMakeobj .dir)
  let _ ← linkObject v name newguy
  let parent ← inoOf v
  let _ ← sfsDirLink newguy dotdot parent
  let ino ← inoOf newguy
  let _ ← sfsDirLink newguy dot ino

/-- `sfi_linkcount--` on a `uint16_t`, and nothing else. -/
def SfsFs.countOff (fs : SfsFs) (v : Nat) : SfsFs :=
  let n := (fs.heap v).svI
  fs.setVnode v
    { fs.heap v with svI := { n with sfiLinkcount := (n.sfiLinkcount + 65535) % 65536 } }

/-- The exit `fatal_error` of `sfs_rename`, which is taken if `m` fails: the new entry is erased
(in the FIRST directory), or the machine stops, and the link is counted off. -/
def orUndo (sv1 slot2 g1 : Nat) (m : Dirs Unit) : Dirs Unit := do
  match ← attempt m with
  | .ok _ => pure ()
  | .error e => do
    match ← attempt (sfsDirUnlink sv1 slot2) with
    | .error _ => halt
    | .ok _ => do
      modify fun s => { s with fs := s.fs.countOff g1 }
      fail e

/-- What `sfs_rename` does to the entry `..` of a directory that goes from one directory to
another.  The reference to the old parent is never dropped. -/
def renameParent (sv1 slot2 g1 sv2 : Nat) : Dirs Unit := do
  let (_, parentslot) ← sfsLookonce g1 dotdot
  orUndo sv1 slot2 g1 (sfsDirUnlink g1 parentslot)
  let ino ← inoOf sv2
  let _ ← sfsDirLink g1 dotdot ino

/-- Other objects, and directories that stay where they are, have no such entry to change. -/
def renameMoved (sv1 slot2 g1 sv2 : Nat) : Dirs Unit := do
  let sv ← onVolume (vnodeAt g1)
  if sv.svI.sfiType = .dir ∧ sv1 ≠ sv2 then renameParent sv1 slot2 g1 sv2 else pure ()

/-- `sfs_rename` from the entry it has found to the exit `error`. -/
def renameObject (sv1 slot1 g1 sv2 : Nat) (n2 : CString) : Dirs Unit := do
  let slot2 ← linkObject sv2 n2 g1
  renameMoved sv1 slot2 g1 sv2
  orUndo sv1 slot2 g1 (sfsDirUnlink sv1 slot1)
  decLinks g1

/-- `sfs_rename`. -/
def sfsRename (sv1 : Nat) (n1 : CString) (sv2 : Nat) (n2 : CString) : Dirs Unit := do
  let (g1, slot1) ← sfsLookonce sv1 n1
  let result ← attempt (renameObject sv1 slot1 g1 sv2 n2)
  onVolume (vopDecref g1)
  ofResult result

/-! ## 4. Looking for a name -/

/-- No name appears twice. -/
def Distinct (l : List SfsDir) : Prop :=
  ∀ (j k : Nat) (d e : SfsDir), l[j]? = some d → l[k]? = some e → d.Live → e.Live →
    d.name = e.name → j = k

/-- What a search for `name` in the slots `l` may hand back. -/
structure Finds (l : List SfsDir) (name : CString) (r : DirScan) : Prop where
  hit : ∀ ino k, r.found = some (ino, k) →
    ∃ d, l[k]? = some d ∧ d.Live ∧ d.sfdIno = ino ∧ d.name = name
  miss : r.found = none → ∀ d ∈ l, d.Live → d.name ≠ name
  empty : ∀ k, r.emptyslot = some k → ∃ d, l[k]? = some d ∧ ¬ d.Live
  full : r.emptyslot = none → ∀ d ∈ l, d.Live

/-- A slot that an entry can be put in: an empty one, or the next one. -/
def IsFree (l : List SfsDir) (slot : Nat) : Prop :=
  slot = l.length ∨ ∃ d, l[slot]? = some d ∧ ¬ d.Live

variable {l : List SfsDir} {slot : Nat}

theorem IsFree.le (h : IsFree l slot) : slot ≤ l.length := by
  rcases h with rfl | ⟨d, hd, -⟩
  · exact Nat.le_refl _
  · exact (List.getElem?_eq_some_iff.mp hd).1.le

theorem IsFree.not_live (hf : IsFree l slot) : ∀ d, l[slot]? = some d → ¬ d.Live := by
  intro d hd
  rcases hf with rfl | ⟨d', hd', hdead⟩
  · rw [getElem?_eq_none (Nat.le_refl _)] at hd
    cases hd
  · rw [hd'] at hd
    exact Option.some.inj hd ▸ hdead

section Finds

variable {p : Prop} {l : List SfsDir} {d : SfsDir} {name : CString} {r : DirScan}

theorem Finds.nil : Finds [] name ⟨none, none⟩ where
  hit := fun _ _ h => nomatch h
  miss := fun _ _ h => absurd h not_mem_nil
  empty := fun _ h => nomatch h
  full := fun _ _ h => absurd h not_mem_nil

theorem getElem?_snoc {k : Nat} {e : SfsDir} (h : l[k]? = some e) : (l ++ [d])[k]? = some e :=
  (List.getElem?_append_left (List.getElem?_eq_some_iff.mp h).1).trans h

section

variable (h : Finds l name r)

include h

theorem Finds.skip (hd : ¬ d.Live) :
    Finds (l ++ [d]) name { r with emptyslot := some l.length } where
  hit := fun ino k hk => by
    obtain ⟨e, he, hrest⟩ := h.hit ino k hk
    exact ⟨e, getElem?_snoc he, hrest⟩
  miss := fun hnone e he hlive => by
    rcases mem_append.mp he with he | he
    · exact h.miss hnone e he hlive
    · exact absurd (mem_singleton.mp he ▸ hlive) hd
  empty := fun k hk => by
    obtain rfl : l.length = k := Option.some.inj hk
    exact ⟨d, getElem?_concat_length, hd⟩
  full := fun hnone => nomatch hnone

theorem Finds.full_snoc (hd : d.Live) (hnone : r.emptyslot = none) : ∀ e ∈ l ++ [d], e.Live := by
  intro e he
  rcases mem_append.mp he with he | he
  · exact h.full hnone e he
  · exact mem_singleton.mp he ▸ hd

theorem Finds.take (hd : d.Live) (hname : d.name = name) :
    Finds (l ++ [d]) name { r with found := some (d.sfdIno, l.length) } where
  hit := fun ino k hk => by
    obtain ⟨rfl, rfl⟩ := Prod.mk.inj (Option.some.inj hk)
    exact ⟨d, getElem?_concat_length, hd, rfl, hname⟩
  miss := fun hnone => nomatch hnone
  empty := fun k hk => by
    obtain ⟨e, he, hdead⟩ := h.empty k hk
    exact ⟨e, getElem?_snoc he, hdead⟩
  full := h.full_snoc hd

theorem Finds.pass (hd : d.Live) (hname : d.name ≠ name) : Finds (l ++ [d]) name r where
  hit := fun ino k hk => by
    obtain ⟨e, he, hrest⟩ := h.hit ino k hk
    exact ⟨e, getElem?_snoc he, hrest⟩
  miss := fun hnone e he hlive => by
    rcases mem_append.mp he with he | he
    · exact h.miss hnone e he hlive
    · exact mem_singleton.mp he ▸ hname
  empty := fun k hk => by
    obtain ⟨e, he, hdead⟩ := h.empty k hk
    exact ⟨e, getElem?_snoc he, hdead⟩
  full := h.full_snoc hd

/-- One round of the search.  If the name was found before, it appears twice. -/
theorem sfsDirLook_spec {s : DirFs}
    (hp : ∀ (j : Nat) (e : SfsDir), l[j]? = some e → e.Live → d.Live → e.name = d.name → p) :
    Wp p (sfsDirLook name l.length d r) (fun r' s' => s' = s ∧ Finds (l ++ [d]) name r')
      (fun _ _ => False) s := by
  rw [sfsDirLook]
  by_cases h0 : d.sfdIno = sfsNoino
  · rw [if_pos h0, wp_pure]
    exact ⟨rfl, h.skip (not_not.mpr h0)⟩
  rw [if_neg h0]
  by_cases hname : d.name = name
  · rw [if_pos hname, wp_bind, wp_assert]
    refine ⟨fun _ => wp_pure.mpr ⟨rfl, h.take h0 hname⟩, fun hfound => ?_⟩
    obtain ⟨⟨ino, k⟩, hk⟩ := Option.ne_none_iff_exists'.mp hfound
    obtain ⟨e, he, hlive, -, hsame⟩ := h.hit ino k hk
    exact hp k e he hlive h0 (hsame.trans hname.symm)
  · rw [if_neg hname, wp_pure]
    exact ⟨rfl, h.pass h0 hname⟩

end

variable {s : DirFs} {v : Nat}

theorem sfsDirScan_spec (hl : s.slots (s.fs.heap v).svIno = l) (hp : ¬ Distinct l → p) :
    ∀ (k m : Nat) (r : DirScan), m + k = l.length → Finds (l.take m) name r →
      Wp p (sfsDirScan v name (range' m k) r) (fun r' s' => s' = s ∧ Finds l name r')
        (fun _ _ => False) s
  | 0, m, r, hm, h => by
    rw [take_of_length_le (by omega)] at h
    exact wp_pure.mpr ⟨rfl, h⟩
  | k + 1, m, r, hm, h => by
    have hlt : m < l.length := by omega
    have hget : l[m]? = some l[m] := getElem?_eq_getElem hlt
    have hlen : (l.take m).length = m := by rw [length_take]; omega
    have htake : l.take (m + 1) = l.take m ++ [l[m]] := by
      rw [take_add_one, hget]
      rfl
    rw [range'_succ, sfsDirScan, wp_bind, sfsReaddir, wp_bind, wp_get]
    simp only [hl, hget, wp_pure, wp_bind]
    have hlook := sfsDirLook_spec (p := p) (d := l[m]) (s := s) h fun j e he hej hdm hname => by
      by_contra hnp
      have hj : j < m := hlen ▸ (List.getElem?_eq_some_iff.mp he).1
      rw [getElem?_take_of_lt hj] at he
      have := not_not.mp (mt hp hnp) j m e _ he hget hej hdm hname
      omega
    rw [hlen] at hlook
    refine hlook.post_ok ?_
    rintro r' s' ⟨hs, hr'⟩
    rw [hs]
    exact sfsDirScan_spec hl hp k (m + 1) r' (by omega) (htake ▸ hr')

/-- The vnode at `v` is a directory with these slots. -/
structure IsDir (s : DirFs) (v : Nat) (l : List SfsDir) : Prop where
  type : (s.fs.heap v).svI.sfiType = .dir
  slots : s.slots (s.fs.heap v).svIno = l
  size : (s.fs.heap v).svI.sfiSize = sfsDirSize * l.length

theorem IsDir.wp_nentries {Q : Nat → DirFs → Prop} {E : Errno → DirFs → Prop} (h : IsDir s v l)
    (hQ : Q l.length s) : Wp p (sfsDirNentries v) Q E s := by
  have hmod : (s.fs.heap v).svI.sfiSize % sfsDirSize = 0 := by
    rw [h.size, Nat.mul_mod_right]
  have hdiv : (s.fs.heap v).svI.sfiSize / sfsDirSize = l.length := by
    rw [h.size, Nat.mul_div_cancel_left _ (by decide)]
  simp only [sfsDirNentries, onVolume, vnodeAt, wp_bind, wp_zoom, wp_get, wp_pure, wp_assert, hdiv]
  exact ⟨fun _ => ⟨fun _ => hQ, fun hn => absurd hmod hn⟩, fun hn => absurd h.type hn⟩

/-- **`sfs_dir_findname`** only reads, and stops the machine only if a name appears twice. -/
theorem sfsDirFindname_spec (h : IsDir s v l) (hp : ¬ Distinct l → p) (name : CString) :
    Wp p (sfsDirFindname v name) (fun r s' => s' = s ∧ Finds l name r) (fun _ _ => False) s := by
  rw [sfsDirFindname, wp_bind]
  refine h.wp_nentries ?_
  rw [range_eq_range']
  exact sfsDirScan_spec h.slots hp l.length 0 _ (Nat.zero_add _) Finds.nil

/-- **`sfs_dir_link`** fails, or writes a free slot of a directory that does not have the name. -/
theorem IsDir.wp_dirLink {Q : Nat → DirFs → Prop} {E : Errno → DirFs → Prop} {name : CString}
    {ino : Nat} (h : IsDir s v l) (hp : ¬ Distinct l → p) (hE : ∀ e, E e s)
    (hQ : ∀ slot, (∀ d ∈ l, d.Live → d.name ≠ name) → name.strlen + 1 ≤ sfsNamelen →
      IsFree l slot → Wp p (do sfsWritedir v (.make ino name) slot; pure slot) Q E s) :
    Wp p (sfsDirLink v name ino) Q E s := by
  rw [sfsDirLink]
  refine (sfsDirFindname_spec h hp name).bind_ok ?_
  rintro r _ ⟨rfl, hr⟩
  split_ifs with hsome hlong
  · exact wp_fail.mpr (hE _)
  · exact wp_fail.mpr (hE _)
  · have hwrite := fun slot => hQ slot (hr.miss (by simpa using hsome)) (Nat.le_of_not_lt hlong)
    rw [wp_bind]
    cases he : r.emptyslot with
    | none => exact h.wp_nentries (hwrite _ (.inl rfl))
    | some slot => exact wp_pure.mpr (hwrite slot (.inr (hr.empty slot he)))

end Finds

/-! ## 5. Slots -/

/-- `l'` is `l` with `e` in slot `k`. -/
def Changed (l : List SfsDir) (k : Nat) (e : SfsDir) (l' : List SfsDir) : Prop :=
  ∀ j : Nat, l'[j]? = if j = k then some e else l[j]?

/-- The live entries that carry the number `i`. -/
def entries (l : List SfsDir) (i : Nat) : Nat := l.countP fun d => d.Live ∧ d.sfdIno = i

section Slots

variable {l l' : List SfsDir} {k i : Nat} {d e : SfsDir}

theorem changed_set (h : k < l.length) (e : SfsDir) : Changed l k e (l.set k e) := by
  intro j
  rw [getElem?_set]
  by_cases hj : j = k
  · rw [if_pos hj.symm, if_pos hj, if_pos h]
  · rw [if_neg (Ne.symm hj), if_neg hj]

theorem IsFree.changed (h : IsFree l k) (e : SfsDir) : Changed l k e (writeSlot l k e) := by
  by_cases hlt : k < l.length
  · rw [writeSlot, if_pos hlt]
    exact changed_set hlt e
  · obtain rfl : k = l.length := Nat.le_antisymm h.le (Nat.le_of_not_lt hlt)
    intro j
    rw [writeSlot, if_neg hlt, Nat.sub_self, replicate_zero, append_nil]
    rcases Nat.lt_trichotomy j l.length with hj | rfl | hj
    · rw [if_neg (Nat.ne_of_lt hj), getElem?_append_left hj]
    · rw [if_pos rfl, getElem?_concat_length]
    · rw [if_neg (Nat.ne_of_gt hj), getElem?_eq_none hj.le, getElem?_eq_none]
      rw [length_append]
      exact hj

theorem Changed.mem (h : Changed l k e l') (hd : d ∈ l') : d = e ∨ d ∈ l := by
  obtain ⟨j, hj⟩ := mem_iff_getElem?.mp hd
  rw [h j] at hj
  by_cases hjk : j = k
  · rw [if_pos hjk] at hj
    exact .inl (Option.some.inj hj).symm
  · rw [if_neg hjk] at hj
    exact .inr (mem_of_getElem? hj)

theorem Changed.distinct (h : Changed l k e l') (hl : Distinct l)
    (hnew : e.Live → ∀ d ∈ l, d.Live → d.name ≠ e.name) : Distinct l' := by
  intro a b x y ha hb hx hy hname
  rw [h a] at ha
  rw [h b] at hb
  by_cases hak : a = k
  · rw [if_pos hak] at ha
    obtain rfl := Option.some.inj ha
    by_cases hbk : b = k
    · rw [hak, hbk]
    · rw [if_neg hbk] at hb
      exact absurd hname.symm (hnew hx y (mem_of_getElem? hb) hy)
  · rw [if_neg hak] at ha
    by_cases hbk : b = k
    · rw [if_pos hbk] at hb
      obtain rfl := Option.some.inj hb
      exact absurd hname (hnew hy x (mem_of_getElem? ha) hx)
    · rw [if_neg hbk] at hb
      exact hl a b x y ha hb hx hy hname

theorem entries_le_length (l : List SfsDir) (i : Nat) : entries l i ≤ l.length :=
  countP_le_length

theorem entries_pos : 0 < entries l i ↔ ∃ d ∈ l, d.Live ∧ d.sfdIno = i := by
  simp [entries, countP_pos_iff]

theorem IsFree.entries (h : IsFree l k) (e : SfsDir) (i : Nat) :
    entries (writeSlot l k e) i = entries l i + if e.Live ∧ e.sfdIno = i then 1 else 0 := by
  rcases h with rfl | ⟨d, hd, hdead⟩
  · rw [writeSlot, if_neg (Nat.lt_irrefl _)]
    simp [Os161.entries, countP_append, countP_cons]
  · obtain ⟨hlt, rfl⟩ := List.getElem?_eq_some_iff.mp hd
    rw [writeSlot, if_pos hlt, Os161.entries, countP_set hlt]
    simp [Os161.entries, not_not.mp hdead]

theorem entries_clear (hd : l[k]? = some d) (i : Nat) :
    entries l i = entries (l.set k .zero) i + if d.Live ∧ d.sfdIno = i then 1 else 0 := by
  obtain ⟨hlt, rfl⟩ := List.getElem?_eq_some_iff.mp hd
  have hle : (if l[k].Live ∧ l[k].sfdIno = i then 1 else 0) ≤ entries l i := by
    by_cases hc : l[k].Live ∧ l[k].sfdIno = i
    · rw [if_pos hc]
      exact entries_pos.mpr ⟨l[k], getElem_mem hlt, hc⟩
    · rw [if_neg hc]
      exact Nat.zero_le _
  have hset : entries (l.set k .zero) i =
      entries l i - if l[k].Live ∧ l[k].sfdIno = i then 1 else 0 := by
    rw [entries, countP_set hlt]
    simp [entries, SfsDir.zero]
  omega

end Slots

end Os161
