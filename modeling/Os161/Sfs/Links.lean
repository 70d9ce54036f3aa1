/-
# Link counts

`sfi_linkcount` is kept by hand: `sfs_creat`, `sfs_link`, `sfs_remove` and `sfs_rename` each write a
slot of the directory and then adjust the count, and each has exits on the way.  On a volume whose
only directory is the root, the count of a regular file is the number of live entries that carry
its number, in every state that these calls and releases of references can lead to.

The references that the calls hand out are part of the state: a list `held` of vnodes, with one
occurrence for each reference.  A file exists as long as an entry names it or somebody holds it,
and goes with the last of these.  `RootLinks` is the invariant, in terms of `Names`; each change
that a call makes keeps it (§2), so each call does (§3).

The count has 16 bits.  It cannot overflow, for a directory has at most 1144 slots.
-/
import Os161.Sfs.Fresh

namespace Os161

open List Names

open Classical

/-! ## 1. The invariant -/

/-- The names of a volume whose only directory is the root, whose vnode is at `v`, and the
references held. -/
structure RootLinks (v : Nat) (n : Names) (held : List Nat) : Prop where
  root : n.ino v = sfsRootLocation
  loaded : 0 < n.refs v
  dir : n.kind sfsRootLocation = .dir
  files : ∀ i ∈ n.objs, i ≠ sfsRootLocation → n.kind i = .file
  distinct : Distinct (n.slots sfsRootLocation)
  named : ∀ d ∈ n.slots sfsRootLocation, d.Live → d.sfdIno ∈ n.objs ∧ d.sfdIno ≠ sfsRootLocation
  links : ∀ i ∈ n.objs, i ≠ sfsRootLocation → n.links i = entries (n.slots sfsRootLocation) i
  refs : ∀ w, w ≠ v → n.refs w = held.count w
  kept : v ∉ held
  alive : ∀ i ∈ n.objs, i ≠ sfsRootLocation → 0 < n.links i ∨ ∃ w, 0 < n.refs w ∧ n.ino w = i
  closed : ∀ w, n.opens w = 0

section Changes

variable {t : Prop} {s : DirFs} {v w i : Nat} {n : Names} {held : List Nat}

namespace RootLinks

variable {d : SfsDir} {slot : Nat}

section

variable (h : RootLinks v n held)

include h

theorem held_pos (hw : w ∈ held) : w ≠ v ∧ 0 < n.refs w := by
  have hne : w ≠ v := fun he => h.kept (he ▸ hw)
  exact ⟨hne, by rw [h.refs w hne]; exact count_pos_iff.mpr hw⟩

theorem opens_lt (hw : w ∈ held) : n.opens w < n.refs w := by
  rw [h.closed w]
  exact (h.held_pos hw).2

theorem held_file (hs : Stands t s n) (hw : w ∈ held) :
    n.ino w ∈ n.objs ∧ n.ino w ≠ sfsRootLocation := by
  obtain ⟨hne, hpos⟩ := h.held_pos hw
  exact ⟨hs.mem_objs hpos, fun he => hne (hs.ino_inj hpos h.loaded (he.trans h.root.symm))⟩

theorem links_pos (hd : d ∈ n.slots sfsRootLocation) (hlive : d.Live) : 0 < n.links d.sfdIno := by
  obtain ⟨hobj, hne⟩ := h.named d hd hlive
  rw [h.links _ hobj hne]
  exact entries_pos.mpr ⟨d, hd, hlive, rfl⟩

theorem entries_of_notMem (hi : i ∉ n.objs) : entries (n.slots sfsRootLocation) i = 0 := by
  by_contra h0
  obtain ⟨d, hd, hlive, rfl⟩ := entries_pos.mp (Nat.pos_of_ne_zero h0)
  exact hi (h.named d hd hlive).1

/-- The directory has at most 1144 slots, and the counts do not overflow. -/
theorem links_lt (hs : Stands t s n) (hi : i ∈ n.objs)
    (hne : i ≠ sfsRootLocation) : n.links i + 1 < 65536 := by
  have hle := entries_le_length (n.slots sfsRootLocation) i
  have hlen : (n.slots sfsRootLocation).length ≤ 1144 := by
    by_contra hgt
    have hmem : sfsRootLocation ∈ n.objs := h.root ▸ hs.mem_objs h.loaded
    have hmap := hs.objects.mapped _ hmem h.dir 1144 (by omega)
    have := lt_of_dataRef hmap
    simp only [sfsDirSize, sectSize] at this
    omega
  rw [h.links i hi hne]
  omega

/-! ## 2. Changes -/

theorem take (hne : i ≠ sfsRootLocation)
    (hw : 0 < n.refs w → n.ino w = i) : RootLinks v (n.take w i) (w :: held) := by
  have hwv : w ≠ v := by
    rintro rfl
    exact hne ((hw h.loaded).symm.trans h.root)
  refine ⟨?_, ?_, h.dir, h.files, h.distinct, h.named, h.links, fun x hx => ?_, ?_,
    fun j hj hjr => ?_, h.closed⟩
  · rw [ino_take, if_neg hwv.symm]
    exact h.root
  · rw [refs_take, if_neg hwv.symm]
    exact h.loaded
  · rw [refs_take, count_cons]
    by_cases hxw : x = w
    · simp [hxw, h.refs w hwv]
    · simp [hxw, Ne.symm hxw, h.refs x hx]
  · simp [hwv.symm, h.kept]
  · refine (h.alive j hj hjr).imp_right ?_
    rintro ⟨x, hx, rfl⟩
    refine ⟨x, ?_, ?_⟩
    · rw [refs_take]
      split_ifs <;> omega
    · rw [ino_take]
      by_cases hxw : x = w
      · rw [if_pos hxw, hxw, hw (hxw ▸ hx)]
      · rw [if_neg hxw]

theorem create (hs : Stands t s n) {b : Nat} (hb : b ∉ n.objs)
    (hw : n.refs w = 0) : RootLinks v (n.create b .file w) (w :: held) := by
  have hwv : w ≠ v := by
    rintro rfl
    exact absurd h.loaded (by omega)
  have hroot : sfsRootLocation ∈ n.objs := h.root ▸ hs.mem_objs h.loaded
  have hbr : sfsRootLocation ≠ b := fun he => hb (he ▸ hroot)
  have hne : ∀ j ∈ n.objs, j ≠ b := fun j hj he => hb (he ▸ hj)
  refine ⟨?_, ?_, ?_, ?_, h.distinct, ?_, ?_, ?_, ?_, ?_, h.closed⟩
  · rw [ino_create, if_neg hwv.symm]
    exact h.root
  · rw [refs_create, if_neg hwv.symm]
    exact h.loaded
  · rw [kind_create, if_neg hbr]
    exact h.dir
  · rintro j hj hjr
    rw [kind_create]
    rcases hj with rfl | hj
    · rw [if_pos rfl]
    · rw [if_neg (hne j hj)]
      exact h.files j hj hjr
  · exact fun d hd hlive => ⟨.inr (h.named d hd hlive).1, (h.named d hd hlive).2⟩
  · rintro j hj hjr
    rw [links_create]
    rcases hj with rfl | hj
    · rw [if_pos rfl]
      exact (h.entries_of_notMem hb).symm
    · rw [if_neg (hne j hj)]
      exact h.links j hj hjr
  · intro x hx
    rw [refs_create, count_cons]
    by_cases hxw : x = w
    · simp [hxw, h.refs w hwv]
    · simp [hxw, Ne.symm hxw, h.refs x hx]
  · simp [hwv.symm, h.kept]
  · rintro j hj hjr
    rcases hj with rfl | hj
    · exact .inr ⟨w, refs_take_pos n w j, by rw [ino_create, if_pos rfl]⟩
    · rw [links_create, if_neg (hne j hj)]
      refine (h.alive j hj hjr).imp_right ?_
      rintro ⟨x, hx, rfl⟩
      have hxw : x ≠ w := by
        rintro rfl
        omega
      refine ⟨x, ?_, ?_⟩
      · rw [refs_create, if_neg hxw]
        exact hx
      · rw [ino_create, if_neg hxw]

theorem link (hs : Stands t s n) {name : CString} (hi : i ∈ n.objs)
    (hne : i ≠ sfsRootLocation) (hfree : IsFree (n.slots sfsRootLocation) slot)
    (hfits : name.strlen + 1 ≤ sfsNamelen)
    (hnew : ∀ d ∈ n.slots sfsRootLocation, d.Live → d.name ≠ name) :
    RootLinks v ((n.setSlots sfsRootLocation (writeSlot (n.slots sfsRootLocation) slot
      (.make i name))).setLinks i (n.links i + 1)) held := by
  have hlive : (SfsDir.make i name).Live := hs.ne_noino hi
  have hslots : ((n.setSlots sfsRootLocation (writeSlot (n.slots sfsRootLocation) slot
      (.make i name))).setLinks i (n.links i + 1)).slots sfsRootLocation =
      writeSlot (n.slots sfsRootLocation) slot (.make i name) := by
    rw [slots_setLinks, slots_setSlots, if_pos rfl]
  have hc := hfree.changed (.make i name)
  refine ⟨h.root, h.loaded, h.dir, h.files, ?_, ?_, ?_, h.refs, h.kept, ?_, h.closed⟩
  · refine hc.distinct h.distinct fun _ d hd hl => ?_
    rw [SfsDir.name_make hfits]
    exact hnew d hd hl
  · intro d hd hl
    rcases hc.mem hd with rfl | hd
    · exact ⟨hi, hne⟩
    · exact h.named d hd hl
  · intro j hj hjr
    rw [hslots, hfree.entries, links_setLinks]
    by_cases hji : j = i
    · rw [if_pos hji, hji, if_pos ⟨hlive, rfl⟩, h.links i hi hne]
    · rw [if_neg hji, if_neg fun hc => hji hc.2.symm]
      exact h.links j hj hjr
  · intro j hj hjr
    rw [links_setLinks]
    by_cases hji : j = i
    · rw [if_pos hji]
      exact .inl (Nat.succ_pos _)
    · rw [if_neg hji]
      exact h.alive j hj hjr

/-- An entry is emptied, and its file has one link less; somebody has to hold the file. -/
theorem unlink (hd : (n.slots sfsRootLocation)[slot]? = some d)
    (hlive : d.Live) (hw : 0 < n.refs w) (hwi : n.ino w = d.sfdIno) :
    RootLinks v ((n.setSlots sfsRootLocation ((n.slots sfsRootLocation).set slot .zero)).setLinks
      d.sfdIno (n.links d.sfdIno - 1)) held := by
  have hslots : ((n.setSlots sfsRootLocation ((n.slots sfsRootLocation).set slot .zero)).setLinks
      d.sfdIno (n.links d.sfdIno - 1)).slots sfsRootLocation =
      (n.slots sfsRootLocation).set slot .zero := by
    rw [slots_setLinks, slots_setSlots, if_pos rfl]
  have hlt := (List.getElem?_eq_some_iff.mp hd).1
  have hc := changed_set hlt .zero
  refine ⟨h.root, h.loaded, h.dir, h.files, ?_, ?_, ?_, h.refs, h.kept, ?_, h.closed⟩
  · exact hc.distinct h.distinct fun hz => absurd hz SfsDir.not_live_zero
  · intro e he hl
    rcases hc.mem he with rfl | he
    · exact absurd hl SfsDir.not_live_zero
    · exact h.named e he hl
  · intro j hj hjr
    have hcount := entries_clear hd j
    rw [hslots, links_setLinks]
    by_cases hji : j = d.sfdIno
    · rw [if_pos ⟨hlive, hji.symm⟩] at hcount
      rw [if_pos hji, ← hji, h.links j hj hjr]
      omega
    · rw [if_neg fun hc => hji hc.2.symm] at hcount
      rw [if_neg hji]
      exact (h.links j hj hjr).trans hcount
  · intro j hj hjr
    rw [links_setLinks]
    by_cases hji : j = d.sfdIno
    · exact .inr ⟨w, hw, hwi.trans hji.symm⟩
    · rw [if_neg hji]
      exact h.alive j hj hjr

theorem release (hs : Stands t s n) (hw : w ∈ held) : RootLinks v (n.release w) (held.erase w) := by
  obtain ⟨hwv, hpos⟩ := h.held_pos hw
  obtain ⟨hobj, hne⟩ := h.held_file hs hw
  have hroot : ∀ x, x ≠ v → (n.drop w).refs x = (held.erase w).count x := by
    intro x hx
    rw [Names.refs_drop, count_erase]
    by_cases hxw : x = w
    · simp [hxw, h.refs w hwv]
    · simp [hxw, Ne.symm hxw, h.refs x hx]
  have hloaded : 0 < (n.drop w).refs v := by
    rw [Names.refs_drop, if_neg hwv.symm]
    exact h.loaded
  have hkept : v ∉ held.erase w := fun hv => h.kept (mem_of_mem_erase hv)
  rw [Names.release]
  split_ifs with hlast hdir
  · rw [h.files _ hobj hne] at hdir
    cases hdir
  · -- nobody names it, and nobody holds it: the file is gone
    have hnot : ∀ d ∈ n.slots sfsRootLocation, d.Live → d.sfdIno ≠ n.ino w := fun d hd hl he => by
      have := h.links_pos hd hl
      rw [he, hlast.2] at this
      exact Nat.lt_irrefl 0 this
    refine ⟨h.root, hloaded, h.dir, fun j hj => h.files j hj.1, h.distinct, fun d hd hl => ?_,
      fun j hj => h.links j hj.1, hroot, hkept, fun j hj hjr => ?_, h.closed⟩
    · exact ⟨⟨(h.named d hd hl).1, hnot d hd hl⟩, (h.named d hd hl).2⟩
    · refine (h.alive j hj.1 hjr).imp_right ?_
      rintro ⟨x, hx, rfl⟩
      have hxw : x ≠ w := fun he => hj.2 (by rw [he])
      refine ⟨x, ?_, rfl⟩
      exact lt_of_lt_of_eq hx (Names.refs_drop.trans (if_neg hxw)).symm
  · refine ⟨h.root, hloaded, h.dir, h.files, h.distinct, h.named, h.links, hroot, hkept,
      fun j hj hjr => ?_, h.closed⟩
    rcases h.alive j hj hjr with hl | ⟨x, hx, rfl⟩
    · exact .inl hl
    by_cases hxw : x = w
    · by_cases hone : n.refs w = 1
      · exact .inl (Nat.pos_of_ne_zero fun h0 => hlast ⟨hone, hxw ▸ h0⟩)
      · refine .inr ⟨x, ?_, rfl⟩
        rw [Names.refs_drop, if_pos hxw]
        omega
    · refine .inr ⟨x, ?_, rfl⟩
      rw [Names.refs_drop, if_neg hxw]
      exact hx

end

end RootLinks

end Changes

/-! ## 3. Calls -/

/-- A volume in some state of names, with exact link counts. -/
def Linked (t : Prop) (v : Nat) (held : List Nat) (s : DirFs) : Prop :=
  ∃ n, Stands t s n ∧ RootLinks v n held

section Calls

variable {t : Prop} {s : DirFs} {v w : Nat} {n : Names} {held : List Nat}

section

variable (hs : Stands t s n) (h : RootLinks v n held)

include hs h

theorem wp_release (hw : w ∈ held) :
    Wp False (onVolume (vopDecref w)) (fun _ => Linked t v (held.erase w)) (fun _ _ => False) s :=
  (hs.decref (h.opens_lt hw)).post fun _ _ hs' => ⟨_, hs', h.release hs hw⟩

theorem wp_linkObject (hw : w ∈ held) (name : CString) :
    Wp False (linkObject v name w) (fun slot s' => IsFree (n.slots sfsRootLocation) slot ∧
        ∃ n', Stands t s' n' ∧ RootLinks v n' held ∧ n'.refs = n.refs ∧ n'.ino = n.ino ∧
          n'.slots sfsRootLocation =
            writeSlot (n.slots sfsRootLocation) slot (.make (n.ino w) name))
      (fun _ s' => Linked t v held s') s := by
  have hpos := (h.held_pos hw).2
  obtain ⟨hobj, hne⟩ := h.held_file hs hw
  have hdir : n.kind (n.ino v) = .dir := by rw [h.root, h.dir]
  have hdist : ¬ ¬ Distinct (n.slots (n.ino v)) := by
    rw [h.root]
    exact not_not.mpr h.distinct
  have hlinks : (n.links (n.ino w) + 1) % 65536 = n.links (n.ino w) + 1 :=
    Nat.mod_eq_of_lt (h.links_lt hs hobj hne)
  refine (hs.linkObject h.loaded hdir hdist hpos name).imp ?_ (fun _ s' hs' => ⟨n, hs', h⟩)
  rintro slot s' ⟨hnew, hfits, hfree, hs'⟩
  rw [h.root] at hnew hfree hs'
  rw [hlinks] at hs'
  refine ⟨hfree, _, hs', h.link hs hobj hne hfree hfits hnew, rfl, rfl, ?_⟩
  rw [slots_setLinks, slots_setSlots, if_pos rfl]

theorem wp_unlinkEntry {slot : Nat} {d : SfsDir}
    (hd : (n.slots sfsRootLocation)[slot]? = some d) (hlive : d.Live) (hw : w ∈ held)
    (hwi : n.ino w = d.sfdIno) :
    Wp False (do sfsDirUnlink v slot; decLinks w)
      (fun _ => Linked t v held) (fun _ _ => False) s := by
  have hpos := (h.held_pos hw).2
  have hdir : n.kind (n.ino v) = .dir := by rw [h.root, h.dir]
  have hslot : slot < (n.slots (n.ino v)).length := by
    rw [h.root]
    exact (List.getElem?_eq_some_iff.mp hd).1
  refine (hs.dirUnlink h.loaded hdir hslot).bind ?_
  intro _ s₁ hs1
  rw [h.root] at hs1
  have hlinks := h.links_pos (mem_of_getElem? hd) hlive
  rw [← hwi] at hlinks
  refine (hs1.decLinks hpos fun h0 => absurd h0 (Nat.ne_of_gt hlinks)).post ?_
  rintro _ s' ⟨-, hs'⟩
  refine ⟨_, hs', ?_⟩
  have := h.unlink hd hlive hpos hwi
  rw [← hwi] at this
  exact this

theorem wp_lookonce (name : CString) : Wp False (sfsLookonce v name)
      (fun r s' => ∃ d, (n.slots sfsRootLocation)[r.2]? = some d ∧ d.Live ∧
        Stands t s' (n.take r.1 d.sfdIno) ∧ RootLinks v (n.take r.1 d.sfdIno) (r.1 :: held))
      (fun _ => Linked t v held) s := by
  have hdir : n.kind (n.ino v) = .dir := by rw [h.root, h.dir]
  have hroot : n.slots (n.ino v) = n.slots sfsRootLocation := by rw [h.root]
  refine (hs.lookonce h.loaded hdir (fun hn => hn (hroot ▸ h.distinct))
    (fun d hd hl _ => (h.named d (hroot ▸ hd) hl).1)
    (fun d hd hl _ h0 => absurd h0 (Nat.ne_of_gt (h.links_pos (hroot ▸ hd) hl)))).imp ?_
    (fun _ s' hs' => ⟨n, hs'.2, h⟩)
  rintro r s' ⟨d, hd, hlive, -, -, hold, hs'⟩
  rw [hroot] at hd
  exact ⟨d, hd, hlive, hs', h.take (h.named d (mem_of_getElem? hd) hlive).2 hold⟩

/-- **`sfs_creat`** hands out a reference, to a new file or to the one there is. -/
theorem wp_creat (name : CString) (excl : Bool) :
    Wp False (sfsCreat v name excl) (fun w => Linked t v (w :: held))
      (fun _ => Linked t v held) s := by
  have hdir : n.kind (n.ino v) = .dir := by rw [h.root, h.dir]
  have hfind := sfsDirFindname_spec (p := False) (hs.isDir h.loaded hdir)
  rw [h.root] at hfind
  refine (hfind (fun hn => hn h.distinct) name).bind_ok ?_
  rintro r _ ⟨rfl, hr⟩
  cases hf : r.found with
  | some x =>
    obtain ⟨d, hd, hlive, hino, -⟩ := hr.hit x.1 x.2 hf
    obtain ⟨hobj, hne⟩ := h.named d (mem_of_getElem? hd) hlive
    rw [hino] at hobj hne
    split_ifs with hexcl
    · exact wp_fail.mpr ⟨n, hs, h⟩
    · refine (hs.loadvnode hobj).imp ?_ (fun _ s' hs' => ⟨n, hs'.2.1, h⟩)
      rintro w s' ⟨hold, hs'⟩
      exact ⟨_, hs', h.take hne hold⟩
  | none =>
    rw [sfsCreatNew, wp_bind]
    refine (hs.makeobj (.inl rfl)).imp ?_ (fun _ s' hs' => ⟨n, hs', h⟩)
    rintro w s₁ ⟨b, hb, hw, hs1⟩
    have h1 := h.create hs hb hw
    simp only [wp_bind, wp_attempt]
    refine (wp_linkObject hs1 h1 mem_cons_self name).imp ?_ ?_
    · rintro slot s' ⟨-, n', hs', h', -⟩
      exact wp_pure.mpr ⟨n', hs', h'⟩
    · rintro e s' ⟨n', hs', h'⟩
      refine (wp_release hs' h' mem_cons_self).post_ok ?_
      intro _ s'' hs''
      rw [erase_cons_head] at hs''
      exact wp_fail.mpr hs''

/-- **`sfs_link`** of a file that is held. -/
theorem wp_link (hw : w ∈ held) (name : CString) :
    Wp False (sfsLink v name w) (fun _ => Linked t v held) (fun _ => Linked t v held) s := by
  rw [sfsLink]
  refine (wp_linkObject hs h hw name).bind ?_
  rintro slot s' ⟨-, n', hs', h', -⟩
  exact wp_pure.mpr ⟨n', hs', h'⟩

/-- **`sfs_remove`.** -/
theorem wp_remove (name : CString) :
    Wp False (sfsRemove v name) (fun _ => Linked t v held) (fun _ => Linked t v held) s := by
  rw [sfsRemove]
  refine (wp_lookonce hs h name).bind ?_
  rintro ⟨g, slot⟩ s₁ ⟨d, hd, hlive, hs1, h1⟩
  dsimp only at hd hs1 h1 ⊢
  rw [unlinkVictim, wp_bind, wp_attempt]
  refine (wp_unlinkEntry hs1 h1 hd hlive mem_cons_self ?_).post_ok ?_
  · rw [ino_take, if_pos rfl]
  rintro _ s₂ ⟨n₂, hs2, h2⟩
  refine (wp_release hs2 h2 mem_cons_self).bind_ok ?_
  intro _ s' hs'
  rw [erase_cons_head] at hs'
  exact wp_ofResult_ok.mpr hs'

end

theorem wp_orUndo {p : Prop} {sv1 slot2 g1 : Nat} {m : Dirs Unit} {Q : Unit → DirFs → Prop}
    {E : Errno → DirFs → Prop} (h : Wp p m Q (fun _ _ => False) s) :
    Wp p (orUndo sv1 slot2 g1 m) Q E s := by
  rw [orUndo, wp_bind, wp_attempt]
  exact h.post_ok fun _ _ hq => wp_pure.mpr hq

/-- **`sfs_rename`** within the root: a second link, and the first one goes. -/
theorem wp_rename (hs : Stands t s n) (h : RootLinks v n held) (n1 n2 : CString) :
    Wp False (sfsRename v n1 v n2) (fun _ => Linked t v held) (fun _ => Linked t v held) s := by
  rw [sfsRename]
  refine (wp_lookonce hs h n1).bind ?_
  rintro ⟨g, slot⟩ s₁ ⟨d, hd, hlive, hs1, h1⟩
  -- the exit is the same, whatever has become of the rename
  have hexit : ∀ (result : Except Errno Unit) (s₂ : DirFs), Linked t v (g :: held) s₂ →
      Wp False (do onVolume (vopDecref g); ofResult result : Dirs Unit)
        (fun _ => Linked t v held) (fun _ => Linked t v held) s₂ := by
    rintro result s₂ ⟨n₂, hs2, h2⟩
    refine (wp_release hs2 h2 mem_cons_self).bind_ok ?_
    intro _ s' hs'
    rw [erase_cons_head] at hs'
    cases result with
    | ok _ => exact wp_ofResult_ok.mpr hs'
    | error _ => exact wp_ofResult_error.mpr hs'
  rw [wp_bind, wp_attempt]
  refine Prog.Wp.imp (Q := fun _ => Linked t v (g :: held)) (E := fun _ => Linked t v (g :: held))
    ?_ (fun _ s₂ hs2 => hexit _ s₂ hs2) (fun _ s₂ hs2 => hexit _ s₂ hs2)
  refine (wp_linkObject hs1 h1 mem_cons_self n2).bind ?_
  rintro slot2 s₂ ⟨hfree, n₂, hs2, h2, -, hino, hslots⟩
  have hne : slot ≠ slot2 := by
    rintro rfl
    exact hfree.not_live d hd hlive
  have hd2 : (n₂.slots sfsRootLocation)[slot]? = some d := by
    rw [hslots, hfree.changed _ slot, if_neg hne]
    exact hd
  have hgi : n₂.ino g = d.sfdIno := by rw [hino, ino_take, if_pos rfl]
  simp only [renameMoved, onVolume, vnodeAt, wp_bind, wp_zoom, wp_get, wp_pure,
    ne_eq, not_true_eq_false, and_false, if_false]
  have hunlink := wp_unlinkEntry hs2 h2 hd2 hlive mem_cons_self hgi
  rw [wp_bind] at hunlink
  refine wp_orUndo (hunlink.post fun _ _ hdec => ?_)
  exact hdec.post_ok fun _ _ hs' => hs'

end Calls

/-! ## 4. Runs -/

/-- What is called in a run. -/
inductive LinkOp where
  | creat (name : CString) (excl : Bool)
  | link (name : CString) (f : Nat)
  | remove (name : CString)
  | rename (n1 n2 : CString)
  /-- `VOP_DECREF` of a reference that was handed out -/
  | release (f : Nat)

/-- A call on the root, whose vnode is at `v`, and the references that are held. -/
def linkCall (v : Nat) : LinkOp → Prog Errno (DirFs × List Nat) Unit
  | .creat name excl => do
    let f ← onFst (sfsCreat v name excl)
    modify fun st => (st.1, f :: st.2)
  | .link name f => onFst (sfsLink v name f)
  | .remove name => onFst (sfsRemove v name)
  | .rename n1 n2 => onFst (sfsRename v n1 v n2)
  | .release f => do
    onFst (onVolume (vopDecref f))
    modify fun st => (st.1, st.2.erase f)

/-- Only a file that is held can be linked or released. -/
def linkLegal : LinkOp → DirFs × List Nat → Prop
  | .link _ f, st => f ∈ st.2
  | .release f, st => f ∈ st.2
  | _, _ => True

section Runs

variable {t : Prop} {v : Nat}

/-- **Every call comes back, and keeps the counts exact.** -/
theorem linkCall_spec (op : LinkOp) (st : DirFs × List Nat) (hl : linkLegal op st)
    (h : Linked t v st.2 st.1) :
    Wp False (linkCall v op) (fun _ st' => Linked t v st'.2 st'.1)
      (fun _ st' => Linked t v st'.2 st'.1) st := by
  obtain ⟨n, hs, h⟩ := h
  cases op with
  | creat name excl =>
    rw [linkCall, wp_bind, wp_onFst]
    exact (wp_creat hs h name excl).imp (fun _ _ hs' => wp_modify.mpr hs') (fun _ _ hs' => hs')
  | link name f =>
    rw [linkCall, wp_onFst]
    exact wp_link hs h hl name
  | remove name =>
    rw [linkCall, wp_onFst]
    exact wp_remove hs h name
  | rename n1 n2 =>
    rw [linkCall, wp_onFst]
    exact wp_rename hs h n1 n2
  | release f =>
    rw [linkCall, wp_bind, wp_onFst]
    exact (wp_release hs h hl).post_ok fun _ _ hs' => wp_modify.mpr hs'

/-- Link counts are exact on the volume, whose files and root directory are `files`. -/
structure LinksExact (t : Prop) (v : Nat) (st : DirFs × List Nat) (files : Set Nat) : Prop where
  wf : Wf t st.1.fs files
  /-- The count of a regular file is the number of live entries that carry its number. -/
  count : ∀ i ∈ files, (st.1.fs.inode i).sfiType = .file →
    (st.1.fs.inode i).sfiLinkcount = entries (st.1.slots sfsRootLocation) i
  /-- No entry names an inode that was freed. -/
  named : ∀ d ∈ st.1.slots sfsRootLocation, d.Live →
    d.sfdIno ∈ files ∧ (st.1.fs.inode d.sfdIno).sfiType = .file
  /-- A regular file that was not freed is named or held. -/
  alive : ∀ i ∈ files, (st.1.fs.inode i).sfiType = .file →
    0 < entries (st.1.slots sfsRootLocation) i ∨
      ∃ f ∈ st.2, f ∈ st.1.fs.sfsVnodes ∧ (st.1.fs.heap f).svIno = i
  /-- What is held is the vnode of a file. -/
  held : ∀ f ∈ st.2, f ∈ st.1.fs.sfsVnodes ∧ (st.1.fs.heap f).svIno ∈ files ∧
    (st.1.fs.heap f).svV.vnRefcount = st.2.count f
  /-- Dropping a reference frees the inode and its blocks if it is the last reference and no entry
  carries the number, and frees nothing otherwise. -/
  reclaim : ∀ f ∈ st.2, ∃ fs', vopDecref f st.1.fs = some (.ok (), fs') ∧
    if st.2.count f = 1 ∧ entries (st.1.slots sfsRootLocation) (st.1.fs.heap f).svIno = 0
    then Erased t files st.1.fs fs' f
    else Wf t fs' files ∧ fs'.sfsFreemap = st.1.fs.sfsFreemap
  /-- No search for a name stops the machine, -/
  lookonce : ∀ name, ∃ r s', sfsLookonce v name st.1 = some (r, s')
  /-- and no call does. -/
  returns : ∀ op, linkLegal op st → ∃ r st', linkCall v op st = some (r, st')

theorem RootLinks.exact {n : Names} {held : List Nat} {s : DirFs} (h : RootLinks v n held)
    (hs : Stands t s n) : LinksExact t v (s, held) n.objs := by
  have hfile : ∀ i ∈ n.objs, (s.fs.inode i).sfiType = .file → i ≠ sfsRootLocation := by
    rintro i hi hty rfl
    rw [hs.objects.kind _ hi, h.dir] at hty
    cases hty
  have hheld : ∀ f ∈ held, f ∈ s.fs.sfsVnodes ∧ (s.fs.heap f).svIno = n.ino f ∧
      (s.fs.heap f).svV.vnRefcount = held.count f := by
    intro f hf
    obtain ⟨hne, hpos⟩ := h.held_pos hf
    have hin := (hs.pos_iff f).mp hpos
    refine ⟨hin, hs.svIno_eq hpos, ?_⟩
    rw [← h.refs f hne, hs.vnodes.refs, if_pos hin]
  refine ⟨hs.objects.wf, fun i hi hty => ?_, fun d hd hl => ?_, fun i hi hty => ?_, fun f hf => ?_,
    fun f hf => ?_, fun name => (wp_lookonce hs h name).returns,
    fun op hl => (linkCall_spec op (s, held) hl ⟨n, hs, h⟩).returns⟩
  · rw [hs.objects.links i hi, h.links i hi (hfile i hi hty), hs.slots]
  · rw [hs.slots] at hd
    obtain ⟨hobj, hne⟩ := h.named d hd hl
    exact ⟨hobj, by rw [hs.objects.kind _ hobj, h.files _ hobj hne]⟩
  · have hne := hfile i hi hty
    rw [hs.slots, ← h.links i hi hne]
    refine (h.alive i hi hne).imp_right ?_
    rintro ⟨w, hw, rfl⟩
    have hwv : w ≠ v := by
      rintro rfl
      exact hne h.root
    refine ⟨w, ?_, (hs.pos_iff w).mp hw, hs.svIno_eq hw⟩
    rw [h.refs w hwv] at hw
    exact count_pos_iff.mp hw
  · obtain ⟨hin, hino, hrc⟩ := hheld f hf
    exact ⟨hin, hino ▸ (h.held_file hs hf).1, hrc⟩
  · obtain ⟨hin, hino, hrc⟩ := hheld f hf
    obtain ⟨hobj, hne⟩ := h.held_file hs hf
    have hlinks : (s.fs.heap f).svI.sfiLinkcount = entries (s.slots sfsRootLocation) (n.ino f) := by
      rw [hs.svI_eq (h.held_pos hf).2, hs.objects.links _ hobj, h.links _ hobj hne, hs.slots]
    have hopen : (s.fs.heap f).svV.vnOpencount = 0 := by
      have := hs.vnodes.opens f
      rw [if_pos hin, h.closed f] at this
      exact this.symm
    have hspec := vopDecref_spec hs.objects.wf hin
    rw [hopen] at hspec
    obtain ⟨_, fs', hrun, hcase⟩ :=
      (hspec.mono (fun ho => ho.2 rfl) (fun _ _ hq => hq) (fun _ _ hf => hf)).exists_ok
    refine ⟨fs', hrun, ?_⟩
    rw [← hrc, hino, ← hlinks]
    rcases hcase with ⟨hgt, rfl⟩ | ⟨hone, ⟨hl, hun⟩ | ⟨hl, her⟩ | ⟨-, hd, -⟩⟩
    · rw [if_neg fun hc => absurd hc.1 (Nat.ne_of_gt hgt)]
      exact ⟨hs.objects.wf.setCount (Nat.sub_pos_of_lt hgt), rfl⟩
    · rw [if_neg fun hc => hl hc.2]
      exact ⟨hun.wf, hun.freemap⟩
    · rw [if_pos ⟨hone, hl⟩]
      exact her
    · rw [hs.svI_eq (h.held_pos hf).2, hs.objects.kind _ hobj, h.files _ hobj hne] at hd
      cases hd

/-- **Link counts are exact.**  On a volume whose only directory is the root, in every state that
calls of `sfs_creat`, `sfs_link`, `sfs_remove` and `sfs_rename` and releases of the references they
hand out can lead to. -/
theorem links_exact {s₀ : DirFs} {st : DirFs × List Nat} (h₀ : Linked t v [] s₀)
    (hrun : Run (linkCall v) linkLegal (s₀, []) st) : ∃ files, LinksExact t v st files := by
  obtain ⟨n, hs, h⟩ : Linked t v st.2 st.1 :=
    hrun.invariant (I := fun st => Linked t v st.2 st.1) linkCall_spec h₀
  exact ⟨n.objs, h.exact hs⟩

end Runs

/-! ## 5. A fresh volume -/

theorem freshNames_rootLinks (v : Nat) : RootLinks v (freshNames.take v sfsRootLocation) [] := by
  refine ⟨?_, ?_, rfl, ?_, ?_, ?_, ?_, ?_, ?_, ?_, fun _ => rfl⟩
  · rw [ino_take, if_pos rfl]
  · exact refs_take_pos ..
  · exact fun i hi hne => absurd hi hne
  · exact fun _ _ _ _ hd => by cases hd
  · exact fun d hd => absurd hd not_mem_nil
  · exact fun i hi hne => absurd hi hne
  · intro w hw
    rw [refs_take, if_neg hw]
    rfl
  · exact not_mem_nil
  · exact fun i hi hne => absurd hi hne

/-- `mksfs`, a mount, `sfs_getroot`, and a file is made. -/
theorem links_exact_fresh : ∃ (s₀ : DirFs) (v : Nat) (r : Except Errno Unit)
    (st : DirFs × List Nat), Linked True v [] s₀ ∧
      linkCall v (.creat dotdot true) (s₀, []) = some (r, st) ∧
      ∃ files, LinksExact True v st files := by
  obtain ⟨s₀, v, hs0⟩ := fresh_root
  have h₀ : Linked True v [] s₀ := ⟨_, hs0, freshNames_rootLinks v⟩
  obtain ⟨r, st, hcall⟩ := (linkCall_spec (.creat dotdot true) (s₀, []) trivial h₀).returns
  have hrun : Run (linkCall v) linkLegal (s₀, []) st :=
    Run.refl.andThen (.creat dotdot true) trivial hcall
  exact ⟨s₀, v, r, st, h₀, hcall, links_exact h₀ hrun⟩

end Os161
