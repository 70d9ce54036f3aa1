/-
# The names on a volume

What the operations on names are for is said in terms of `Names`: which objects exist, of which
kind they are and how many links they count, what the slots of the directories hold, and which
vnodes are in memory, for which object and with how many references.  Blocks, the free map, dirty
flags and the table of vnodes do not appear in it.

`Stands s n` says that the volume `s` is well formed and is in the state `n`.  Each function that
the operations call does to `n` what its specification here says, and the operations are reasoned
about in terms of these alone.
-/
import Os161.Sfs.Dir

namespace Os161

open Classical Function

/-! ## 1. Names -/

/-- The state of the names on a volume. -/
structure Names where
  /-- the objects that exist, by inode number -/
  objs : Set Nat
  kind : Nat → SfsType
  links : Nat → Nat
  slots : Nat → List SfsDir
  /-- the references that a vnode counts, by its address; 0 if it is not in memory -/
  refs : Nat → Nat
  /-- how many of these belong to an open file -/
  opens : Nat → Nat
  /-- the object of a vnode in memory -/
  ino : Nat → Nat

open Names

namespace Names

/-- A reference to the vnode at `v`, which is the one of object `i`. -/
def take (n : Names) (v i : Nat) : Names :=
  { n with refs := update n.refs v (n.refs v + 1), ino := update n.ino v i }

/-- One reference less. -/
def drop (n : Names) (v : Nat) : Names :=
  { n with refs := update n.refs v (n.refs v - 1) }

/-- An object is no more. -/
def erase (n : Names) (i : Nat) : Names := { n with objs := {j | j ∈ n.objs ∧ j ≠ i} }

/-- A new object without links, and a reference to it. -/
def create (n : Names) (i : Nat) (kind : SfsType) (v : Nat) : Names :=
  { n.take v i with
    objs := {j | j = i ∨ j ∈ n.objs}
    kind := update n.kind i kind
    links := update n.links i 0 }

/-- The link count of an object. -/
def setLinks (n : Names) (i k : Nat) : Names := { n with links := update n.links i k }

/-- The slots of a directory. -/
def setSlots (n : Names) (i : Nat) (l : List SfsDir) : Names :=
  { n with slots := update n.slots i l }

/-- `VOP_DECREF`.  The last reference to an object without links takes the object with it; but to a
directory without links nothing happens. -/
def release (n : Names) (v : Nat) : Names :=
  if n.refs v = 1 ∧ n.links (n.ino v) = 0 then
    if n.kind (n.ino v) = .dir then n else (n.erase (n.ino v)).drop v
  else n.drop v

section

variable {n : Names} {v w i j : Nat}

theorem refs_take : (n.take v i).refs w = if w = v then n.refs v + 1 else n.refs w :=
  update_apply ..

theorem refs_take_pos (n : Names) (v i : Nat) : 0 < (n.take v i).refs v := by
  rw [refs_take, if_pos rfl]
  exact Nat.succ_pos _

theorem ino_take : (n.take v i).ino w = if w = v then i else n.ino w := update_apply ..

theorem refs_drop : (n.drop v).refs w = if w = v then n.refs v - 1 else n.refs w :=
  update_apply ..

variable {k : SfsType} {l : List SfsDir}

theorem refs_create :
    (n.create i k v).refs w = if w = v then n.refs v + 1 else n.refs w := update_apply ..

theorem ino_create : (n.create i k v).ino w = if w = v then i else n.ino w :=
  update_apply ..

theorem kind_create : (n.create i k v).kind j = if j = i then k else n.kind j := update_apply ..

theorem links_create : (n.create i k v).links j = if j = i then 0 else n.links j := update_apply ..

theorem links_setLinks {k : Nat} : (n.setLinks i k).links j = if j = i then k else n.links j :=
  update_apply ..

theorem slots_setSlots :
    (n.setSlots i l).slots j = if j = i then l else n.slots j := update_apply ..

@[simp] theorem slots_setLinks {k : Nat} : (n.setLinks i k).slots = n.slots := rfl

theorem setLinks_self : n.setLinks i (n.links i) = n := by
  rw [setLinks, update_eq_self]

theorem setSlots_self : n.setSlots i (n.slots i) = n := by
  rw [setSlots, update_eq_self]

end

end Names

/-! ## 2. A volume in a state of names -/

/-- The objects are as the names say. -/
structure Objects (t : Prop) (fs : SfsFs) (n : Names) : Prop where
  wf : Wf t fs n.objs
  kind : ∀ i ∈ n.objs, (fs.inode i).sfiType = n.kind i
  links : ∀ i ∈ n.objs, (fs.inode i).sfiLinkcount = n.links i
  size : ∀ i ∈ n.objs, n.kind i = .dir → (fs.inode i).sfiSize = sfsDirSize * (n.slots i).length
  mapped : ∀ i ∈ n.objs, n.kind i = .dir → ∀ k < (n.slots i).length,
    fs.dataRef i (k * sfsDirSize / sectSize) ≠ 0

/-- The vnodes in memory are as the names say. -/
structure Vnodes (fs : SfsFs) (n : Names) : Prop where
  refs : ∀ v, n.refs v = if v ∈ fs.sfsVnodes then (fs.heap v).svV.vnRefcount else 0
  ino : ∀ v ∈ fs.sfsVnodes, (fs.heap v).svIno = n.ino v
  opens : ∀ v, n.opens v = if v ∈ fs.sfsVnodes then (fs.heap v).svV.vnOpencount else 0
  le : ∀ v, n.opens v ≤ n.refs v

/-- **The volume `s` is in the state `n`.**  Under `t` there is always memory, and no block is lost.
What is no directory has no slots. -/
structure Stands (t : Prop) (s : DirFs) (n : Names) : Prop where
  objects : Objects t s.fs n
  vnodes : Vnodes s.fs n
  slots : s.slots = n.slots
  blank : ∀ i, ¬ (i ∈ n.objs ∧ n.kind i = .dir) → n.slots i = []
  memory : t → ∀ k, s.fs.kmallocOk k = true

section Objects

variable {t : Prop} {fs fs' : SfsFs} {n : Names} {i fb v : Nat} {n' : Names} {files : Set Nat}

theorem dataRef_ne_zero (href : ∀ r, fs.refAt i r ≠ 0 → fs'.refAt i r ≠ 0)
    (h : fs.dataRef i fb ≠ 0) :
    fs'.dataRef i fb ≠ 0 := by
  unfold SfsFs.dataRef at h ⊢
  cases hs : dataSlot fb with
  | none =>
    rw [hs] at h
    exact absurd rfl h
  | some r =>
    rw [hs] at h
    exact href r h

theorem lt_of_dataRef (h : fs.dataRef i fb ≠ 0) : fb < 143 := by
  by_contra hge
  refine h ?_
  rw [SfsFs.dataRef, dataSlot, dif_neg (by omega), dif_neg (by omega)]

theorem Objects.congr (h : Objects t fs n) (hw : Wf t fs' n'.objs)
    (hobjs : ∀ i ∈ n'.objs, i ∈ n.objs) (hkind : n'.kind = n.kind) (hlinks : n'.links = n.links)
    (hslots : n'.slots = n.slots) (hsame : ∀ i ∈ n'.objs, (fs.inode i).SameMeta (fs'.inode i))
    (href : ∀ i ∈ n'.objs, ∀ r, fs.refAt i r ≠ 0 → fs'.refAt i r ≠ 0) : Objects t fs' n' where
  wf := hw
  kind := fun i hi => by rw [hkind, (hsame i hi).2.1, h.kind i (hobjs i hi)]
  links := fun i hi => by rw [hlinks, (hsame i hi).2.2, h.links i (hobjs i hi)]
  size := fun i hi hd => by
    rw [hkind] at hd
    rw [hslots, (hsame i hi).1, h.size i (hobjs i hi) hd]
  mapped := fun i hi hd k hk => by
    rw [hkind] at hd
    rw [hslots] at hk
    exact dataRef_ne_zero (href i hi) (h.mapped i (hobjs i hi) hd k hk)

section

variable (h : Vnodes fs n)

include h

theorem Vnodes.pos_iff (hw : Wf t fs files) (v : Nat) : 0 < n.refs v ↔ v ∈ fs.sfsVnodes := by
  rw [h.refs v]
  by_cases hv : v ∈ fs.sfsVnodes
  · rw [if_pos hv]
    exact ⟨fun _ => hv, fun _ => hw.table.refcount_pos v hv⟩
  · rw [if_neg hv]
    exact ⟨fun h0 => absurd h0 (Nat.lt_irrefl 0), fun hin => absurd hin hv⟩

theorem Vnodes.of_frame (hfr : Frame fs fs') : Vnodes fs' n where
  refs := fun v => by rw [hfr.vnodes, hfr.count, h.refs]
  ino := fun v hv => by
    rw [hfr.ino]
    exact h.ino v (hfr.vnodes ▸ hv)
  opens := fun v => by rw [hfr.vnodes, hfr.count, h.opens]
  le := h.le

theorem Vnodes.setCount {vn : Vnode} (hv : v ∈ fs.sfsVnodes)
    (hvn : vn.vnOpencount = (fs.heap v).svV.vnOpencount)
    (hrefs : n'.refs = update n.refs v vn.vnRefcount) (hino : n'.ino = n.ino)
    (hopens : n'.opens = n.opens) (hle : n.opens v ≤ vn.vnRefcount) :
    Vnodes (fs.setCount v vn) n' where
  refs := fun w => by
    show n'.refs w = if w ∈ fs.sfsVnodes then ((fs.setCount v vn).heap w).svV.vnRefcount else 0
    rw [hrefs, SfsFs.heap_setCount]
    by_cases hwv : w = v
    · rw [hwv, update_self, if_pos hv, if_pos rfl]
    · rw [update_of_ne hwv, if_neg hwv, h.refs]
  ino := fun w hw => by
    rw [SfsFs.svIno_setCount, hino]
    exact h.ino w hw
  opens := fun w => by
    show n'.opens w = if w ∈ fs.sfsVnodes then ((fs.setCount v vn).heap w).svV.vnOpencount else 0
    rw [hopens, SfsFs.heap_setCount, h.opens]
    by_cases hwv : w = v
    · rw [hwv, if_pos hv, if_pos hv, if_pos rfl, hvn]
    · rw [if_neg hwv]
  le := fun w => by
    rw [hopens, hrefs]
    by_cases hwv : w = v
    · rwa [hwv, update_self]
    · rw [update_of_ne hwv]
      exact h.le w

theorem Vnodes.insertVnode (ht : Table fs files) {sv : SfsVnode}
    (hsv : sv.svV = vnodeInit) : Vnodes (fs.insertVnode sv) (n.take fs.nextVnode sv.svIno) := by
  have hfresh : fs.nextVnode ∉ fs.sfsVnodes := fun hin =>
    absurd (ht.fresh _ hin) (Nat.lt_irrefl _)
  have hold : ∀ w, w ≠ fs.nextVnode →
      (w ∈ (fs.insertVnode sv).sfsVnodes ↔ w ∈ fs.sfsVnodes) := fun w hw => by
    rw [SfsFs.mem_insertVnode, or_iff_left hw]
  have hnew : fs.nextVnode ∈ (fs.insertVnode sv).sfsVnodes := SfsFs.mem_insertVnode.mpr (.inr rfl)
  refine ⟨fun w => ?_, fun w hw => ?_, fun w => ?_, fun w => ?_⟩
  · rw [refs_take]
    by_cases hwv : w = fs.nextVnode
    · rw [hwv, if_pos rfl, if_pos hnew, SfsFs.heap_insertVnode_self, hsv, h.refs, if_neg hfresh]
      rfl
    · rw [if_neg hwv, h.refs]
      simp only [hold w hwv]
      by_cases hw : w ∈ fs.sfsVnodes
      · rw [if_pos hw, if_pos hw, ht.heap_insertVnode sv hw]
      · rw [if_neg hw, if_neg hw]
  · rw [ino_take]
    by_cases hwv : w = fs.nextVnode
    · rw [if_pos hwv, hwv, SfsFs.heap_insertVnode_self]
    · have hw := (hold w hwv).mp hw
      rw [if_neg hwv, ht.heap_insertVnode sv hw, h.ino w hw]
  · show n.opens w = _
    rw [h.opens]
    by_cases hwv : w = fs.nextVnode
    · rw [hwv, if_pos hnew, if_neg hfresh, SfsFs.heap_insertVnode_self, hsv]
      rfl
    · simp only [hold w hwv]
      by_cases hw : w ∈ fs.sfsVnodes
      · rw [if_pos hw, if_pos hw, ht.heap_insertVnode sv hw]
      · rw [if_neg hw, if_neg hw]
  · rw [refs_take]
    have hle : n.opens w ≤ n.refs w := h.le w
    show n.opens w ≤ _
    split_ifs with hwv
    · rw [← hwv]
      omega
    · exact hle

theorem Vnodes.gone (ht : Table fs files) (hg : Gone fs fs' v)
    (hone : n.refs v = 1) (hopen : n.opens v = 0) (hrefs : n'.refs = (n.drop v).refs)
    (hino : n'.ino = n.ino) (hopens : n'.opens = n.opens) : Vnodes fs' n' := by
  have hmem : ∀ w, w ∈ fs'.sfsVnodes ↔ w ≠ v ∧ w ∈ fs.sfsVnodes := fun w => by
    rw [hg.vnodes]
    exact ht.nodup.mem_erase_iff
  refine ⟨fun w => ?_, fun w hw => ?_, fun w => ?_, fun w => ?_⟩
  · rw [hrefs, refs_drop]
    by_cases hwv : w = v
    · rw [hwv, if_pos rfl, hone, if_neg fun hin => ((hmem v).mp hin).1 rfl]
    · rw [if_neg hwv, h.refs]
      simp only [hmem w, hwv, ne_eq, not_false_eq_true, true_and, hg.count w hwv]
  · obtain ⟨hwv, hw⟩ := (hmem w).mp hw
    rw [hg.ino w hwv, hino]
    exact h.ino w hw
  · rw [hopens]
    by_cases hwv : w = v
    · rw [hwv, hopen, if_neg fun hin => ((hmem v).mp hin).1 rfl]
    · rw [h.opens]
      simp only [hmem w, hwv, ne_eq, not_false_eq_true, true_and, hg.count w hwv]
  · rw [hopens, hrefs, refs_drop]
    by_cases hwv : w = v
    · rw [hwv, hopen]
      exact Nat.zero_le _
    · rw [if_neg hwv]
      exact h.le w

end

end Objects

/-! ## 3. What the functions below the names do -/

section Below

variable {p t : Prop} {s : DirFs} {n : Names} {v i : Nat}

namespace Stands

theorem pos_iff (h : Stands t s n) (v : Nat) : 0 < n.refs v ↔ v ∈ s.fs.sfsVnodes :=
  h.vnodes.pos_iff h.objects.wf v

theorem mem_objs (h : Stands t s n) (hv : 0 < n.refs v) : n.ino v ∈ n.objs := by
  have hv := (h.pos_iff v).mp hv
  rw [← h.vnodes.ino v hv]
  exact h.objects.wf.table.ino_mem v hv

variable {w slot : Nat} {l : List SfsDir}

section

variable (h : Stands t s n)

include h

theorem ino_inj (hv : 0 < n.refs v) (hw : 0 < n.refs w) (he : n.ino v = n.ino w) : v = w := by
  have hv := (h.pos_iff v).mp hv
  have hw := (h.pos_iff w).mp hw
  rw [← h.vnodes.ino v hv, ← h.vnodes.ino w hw] at he
  exact h.objects.wf.table.ino_inj v hv w hw he

theorem svI_eq (hv : 0 < n.refs v) : (s.fs.heap v).svI = s.fs.inode (n.ino v) := by
  have hv := (h.pos_iff v).mp hv
  rw [← h.vnodes.ino v hv, h.objects.wf.table.inode hv]

theorem svIno_eq (hv : 0 < n.refs v) : (s.fs.heap v).svIno = n.ino v :=
  h.vnodes.ino v ((h.pos_iff v).mp hv)

theorem ne_noino (hi : i ∈ n.objs) : i ≠ sfsNoino :=
  h.objects.wf.file_pos i hi

theorem isDir (hv : 0 < n.refs v) (hd : n.kind (n.ino v) = .dir) :
    IsDir s v (n.slots (n.ino v)) where
  type := by rw [h.svI_eq hv, h.objects.kind _ (h.mem_objs hv), hd]
  slots := by rw [h.svIno_eq hv, h.slots]
  size := by rw [h.svI_eq hv, h.objects.size _ (h.mem_objs hv) hd]

/-- **`sfs_loadvnode`** takes a reference to the vnode of an object, which may have to be read in.
-/
theorem loadvnode (hi : i ∈ n.objs) : Wp p (onVolume (sfsLoadvnode i .inval))
      (fun v s' => (0 < n.refs v → n.ino v = i) ∧ Stands t s' (n.take v i))
      (fun e s' => e = .enomem ∧ Stands t s' n ∧ ¬ t ∧ ∀ v, 0 < n.refs v → n.ino v ≠ i) s := by
  have hw := h.objects.wf
  rw [onVolume, wp_zoom]
  refine (sfsLoadvnode_spec hw hi).weaken.imp ?_ ?_
  · intro v fs' hl
    obtain ⟨hw', hsame⟩ := hl.wf hw hi
    cases hl with
    | hit hv hino =>
      have hn : n.ino v = i := by rw [← h.vnodes.ino v hv, hino]
      have hrefs : (n.take v i).refs = update n.refs v
          (vnodeIncref (s.fs.heap v).svV).vnRefcount := by
        show update n.refs v (n.refs v + 1) = _
        rw [h.vnodes.refs v, if_pos hv]
        rfl
      have hino' : (n.take v i).ino = n.ino := by
        rw [← hn]
        exact update_eq_self _ _
      refine ⟨fun _ => hn, ?_, ?_, h.slots, h.blank, h.memory⟩
      · exact h.objects.congr hw' (fun _ => id) rfl rfl rfl
          (fun j _ => by rw [hsame j]; exact .refl _) fun j _ r h0 => by
            rwa [SfsFs.refAt_setCount]
      · have hle := h.vnodes.le v
        rw [h.vnodes.refs v, if_pos hv] at hle
        exact h.vnodes.setCount hv rfl hrefs hino' rfl (Nat.le_succ_of_le hle)
    | miss hnone k =>
      have hout : s.fs.nextVnode ∉ s.fs.sfsVnodes := fun hin =>
        absurd (hw.table.fresh _ hin) (Nat.lt_irrefl _)
      refine ⟨fun hpos => absurd ((h.pos_iff _).mp hpos) hout, ?_, ?_, h.slots, h.blank, ?_⟩
      · refine h.objects.congr hw' (fun _ => id) rfl rfl rfl
          (fun j _ => by rw [hsame j]; exact .refl _) fun j _ r h0 => ?_
        rwa [SfsFs.refAt, hsame j]
      · have hvn : Vnodes (s.fs.burn k) n :=
          { h.vnodes with }
        exact hvn.insertVnode (hw.burn k).table rfl
      · exact fun ht m => h.memory ht _
  · rintro e _ ⟨rfl, hnone, k, rfl, m, hm⟩
    refine ⟨rfl, ⟨?_, { h.vnodes with }, h.slots, h.blank,
      fun ht m => h.memory ht _⟩, fun ht => by simp [h.memory ht m] at hm, fun v hv hi => ?_⟩
    · exact h.objects.congr (hw.burn k) (fun _ => id) rfl rfl rfl (fun j _ => .refl _)
        fun j _ r h0 => h0
    · -- a vnode of the object would have been found
      refine SfsFs.vnodeOf_eq_none.mp hnone v ((h.pos_iff v).mp hv) ?_
      rw [h.svIno_eq hv, hi]

theorem refs_nextVnode : n.refs s.fs.nextVnode = 0 := by
  have hout : s.fs.nextVnode ∉ s.fs.sfsVnodes := fun hin =>
    absurd (h.objects.wf.table.fresh _ hin) (Nat.lt_irrefl _)
  rw [h.vnodes.refs, if_neg hout]

end

section Making

variable {b : Nat} (hb : b < s.fs.nblocks) (hfree : s.fs.sfsFreemap.isset b = false)

include hb hfree

variable {type : SfsType}

theorem objects_create (h : Stands t s n) (htype : type = .file ∨ type = .dir) (k : Nat) :
    Objects t (s.fs.create b type k) (n.create b type s.fs.nextVnode) := by
  have hbn : b ∉ n.objs := h.objects.wf.free_not_file hb hfree
  have hne : ∀ i ∈ n.objs, i ≠ b := fun i hi he => hbn (he ▸ hi)
  have hempty : n.slots b = [] := h.blank b fun hc => hbn hc.1
  obtain ⟨hw', hold, hnew⟩ := h.objects.wf.create hb hfree htype k
  refine ⟨hw', fun i hi => ?_, fun i hi => ?_, fun i hi hd => ?_, fun i hi hd j hj => ?_⟩
  · rw [kind_create]
    rcases hi with rfl | hi
    · rw [if_pos rfl, hnew]
    · rw [if_neg (hne i hi), (hold i hi).1, h.objects.kind i hi]
  · rw [links_create]
    rcases hi with rfl | hi
    · rw [if_pos rfl, hnew]
      rfl
    · rw [if_neg (hne i hi), (hold i hi).1, h.objects.links i hi]
  · rcases hi with rfl | hi
    · show _ = sfsDirSize * (n.slots i).length
      rw [hnew, hempty]
      rfl
    · rw [kind_create, if_neg (hne i hi)] at hd
      rw [(hold i hi).1]
      exact h.objects.size i hi hd
  · rcases hi with rfl | hi
    · have hj : j < (n.slots i).length := hj
      rw [hempty] at hj
      exact absurd hj (Nat.not_lt_zero j)
    · rw [kind_create, if_neg (hne i hi)] at hd
      refine dataRef_ne_zero (fun r h0 => ?_) (h.objects.mapped i hi hd j hj)
      rwa [(hold i hi).2 r]

theorem create (h : Stands t s n) (htype : type = .file ∨ type = .dir) (k : Nat) :
    Stands t { s with fs := s.fs.create b type k } (n.create b type s.fs.nextVnode) := by
  have hbn : b ∉ n.objs := h.objects.wf.free_not_file hb hfree
  refine ⟨h.objects_create hb hfree htype k, ?_, h.slots, fun i hi => ?_, fun ht m => h.memory ht _⟩
  · have hvn : Vnodes ((s.fs.alloc b).burn k) n :=
      { h.vnodes with }
    have ht : Table ((s.fs.alloc b).burn k) n.objs :=
      ((h.objects.wf.leak hb hfree).burn k).table
    have hins : Vnodes (((s.fs.alloc b).burn k).insertVnode
        ⟨vnodeInit, { emptyInode with sfiType := type }, b, true⟩) _ := hvn.insertVnode ht rfl
    exact { hins with }
  · by_cases hib : i = b
    · rw [hib]
      exact h.blank b fun hc => hbn hc.1
    · refine h.blank i fun hc => hi ⟨.inr hc.1, ?_⟩
      rw [kind_create, if_neg hib]
      exact hc.2

/-- A block that is allocated and forgotten, which happens only without memory. -/
theorem leak (h : Stands t s n) (hm : ¬ s.fs.HasMemory) (k : Nat) :
    Stands t { s with fs := (s.fs.alloc b).burn k } n := by
  have hw := h.objects.wf
  have hnt : ¬ t := fun ht => hm fun m _ => h.memory ht m
  have hw' : Wf t ((s.fs.alloc b).burn k) n.objs :=
    { (hw.leak hb hfree).burn k with tight := fun ht => absurd ht hnt }
  refine ⟨?_, { h.vnodes with }, h.slots, h.blank,
    fun ht => absurd ht hnt⟩
  refine h.objects.congr hw' (fun _ => id) rfl rfl rfl (fun i hi => ?_) fun i hi r h0 => ?_
  · show (s.fs.inode i).SameMeta ((s.fs.alloc b).inode i)
    rw [hw.alloc_inode hb hfree hi]
    exact .refl _
  · show (s.fs.alloc b).refAt i r ≠ 0
    rwa [hw.alloc_refAt hb hfree hi]

end Making

section

variable (h : Stands t s n)

include h

/-- **`sfs_makeobj`** makes an object without links, in a block that was none. -/
theorem makeobj {type : SfsType} (htype : type = .file ∨ type = .dir) :
    Wp p (onVolume (sfsMakeobj type))
      (fun v s' => ∃ b, b ∉ n.objs ∧ n.refs v = 0 ∧ Stands t s' (n.create b type v))
      (fun _ s' => Stands t s' n) s := by
  rw [onVolume, wp_zoom]
  refine (sfsMakeobj_spec h.objects.wf htype).weaken.imp ?_ ?_
  · rintro _ _ ⟨rfl, -, b, k, hb, hfree, rfl⟩
    exact ⟨b, h.objects.wf.free_not_file hb hfree, h.refs_nextVnode, h.create hb hfree htype k⟩
  · rintro e _ (⟨-, rfl, -⟩ | ⟨-, hm, b, k, hb, hfree, rfl⟩)
    · exact h
    · exact h.leak hb hfree hm k

theorem opens_lt_take : n.opens v < (n.take v i).refs v := by
  rw [refs_take, if_pos rfl]
  exact Nat.lt_succ_of_le (h.vnodes.le v)

/-- **`VOP_DECREF`** of a reference that belongs to no open file is a release. -/
theorem decref (hopen : n.opens v < n.refs v) :
    Wp p (onVolume (vopDecref v)) (fun _ s' => Stands t s' (n.release v)) (fun _ _ => False) s := by
  have hv : 0 < n.refs v := Nat.zero_lt_of_lt hopen
  have hw := h.objects.wf
  have hin := (h.pos_iff v).mp hv
  have hoc : (s.fs.heap v).svV.vnOpencount = n.opens v := by rw [h.vnodes.opens, if_pos hin]
  have hrc : n.refs v = (s.fs.heap v).svV.vnRefcount := by rw [h.vnodes.refs, if_pos hin]
  have hlc : (s.fs.heap v).svI.sfiLinkcount = n.links (n.ino v) := by
    rw [h.svI_eq hv, h.objects.links _ (h.mem_objs hv)]
  have hty : (s.fs.heap v).svI.sfiType = n.kind (n.ino v) := by
    rw [h.svI_eq hv, h.objects.kind _ (h.mem_objs hv)]
  have hino := h.svIno_eq hv
  rw [onVolume, wp_zoom, release]
  refine (vopDecref_spec hw hin).mono (fun ho => ?_) ?_ (fun _ _ hf => hf.elim)
  · omega
  rw [← hrc, hlc, hty]
  rintro _ fs' (⟨hgt, rfl⟩ | ⟨hone, hcase⟩)
  · have hne : ¬ (n.refs v = 1 ∧ n.links (n.ino v) = 0) := fun hc => by omega
    rw [if_neg hne]
    refine ⟨?_, h.vnodes.setCount hin rfl rfl rfl rfl (Nat.le_sub_one_of_lt hopen), h.slots,
      h.blank, h.memory⟩
    exact h.objects.congr (hw.setCount (Nat.sub_pos_of_lt hgt)) (fun _ => id) rfl rfl rfl
      (fun j _ => by rw [SfsFs.inode_setCount]; exact .refl _)
      fun j _ r h0 => by rwa [SfsFs.refAt_setCount]
  have hzero : n.opens v = 0 := by omega
  rcases hcase with ⟨hl, hun⟩ | ⟨hl, her⟩ | ⟨hl, hd, rfl⟩
  · -- links: the vnode leaves memory
    rw [if_neg fun hc => hl hc.2]
    refine ⟨?_, h.vnodes.gone hw.table hun.gone hone hzero rfl rfl rfl, h.slots, h.blank, ?_⟩
    · refine h.objects.congr hun.wf (fun _ => id) rfl rfl rfl
        (fun j _ => by rw [hun.inode j]; exact .refl _) fun j hj r h0 => ?_
      rwa [SfsFs.refAt_congr (hun.inode j) (fun h0' => hun.disk _ fun he => ?_) r]
      exact hw.ref_not_mem hj h0' (he ▸ hw.table.ino_mem v hin)
    · rw [hun.gone.kmallocOk]
      exact h.memory
  · -- no links: the object goes
    have hfile := her.file
    rw [hino, h.objects.kind _ (h.mem_objs hv)] at hfile
    rw [if_pos ⟨hone, hl⟩, if_neg hfile]
    rw [← hino]
    refine ⟨?_, h.vnodes.gone hw.table her.gone hone hzero rfl rfl rfl, h.slots, ?_, ?_⟩
    · refine h.objects.congr her.wf (fun _ hj => hj.1) rfl rfl rfl
        (fun j hj => her.same j hj.1 hj.2) fun j hj r h0 => ?_
      rwa [her.ref j hj.1 hj.2 r]
    · intro j hj
      refine h.blank j fun hc => hj ⟨⟨hc.1, fun he => hfile ?_⟩, hc.2⟩
      rw [← hino, ← he]
      exact hc.2
    · rw [her.gone.kmallocOk]
      exact h.memory
  · -- a directory without links stays
    rw [if_pos ⟨hone, hl⟩, if_pos hd]
    exact h

/-- A change of the inode in a vnode, but for its references, with the slots to match its size. -/
theorem setMeta (hv : 0 < n.refs v) {m : SfsInode} (hfits : m.Fits)
    (htype : m.sfiType = (s.fs.heap v).svI.sfiType)
    (hdirect : m.sfiDirect = (s.fs.heap v).svI.sfiDirect)
    (hindirect : m.sfiIndirect = (s.fs.heap v).svI.sfiIndirect)
    (hsize : n.kind (n.ino v) = .dir → m.sfiSize = sfsDirSize * l.length)
    (hmapped : n.kind (n.ino v) = .dir → ∀ k < l.length,
      s.fs.dataRef (n.ino v) (k * sfsDirSize / sectSize) ≠ 0)
    (hblank : n.kind (n.ino v) ≠ .dir → l = []) :
    Stands t ⟨s.fs.setInode v m, update s.slots (n.ino v) l⟩
      ((n.setLinks (n.ino v) m.sfiLinkcount).setSlots (n.ino v) l) := by
  have hw := h.objects.wf
  have hin := (h.pos_iff v).mp hv
  have hino := h.svIno_eq hv
  have hinode : ∀ j, (s.fs.setInode v m).inode j = if j = n.ino v then m else s.fs.inode j := by
    intro j
    rw [hw.table.inode_setInode hin m, hino]
  refine ⟨⟨hw.setMeta hin hdirect hindirect hfits htype, ?_, ?_, ?_, ?_⟩,
    h.vnodes.of_frame (.setInode _ _ _) |> fun hvn =>
      ⟨hvn.refs, hvn.ino, hvn.opens, hvn.le⟩, ?_, ?_,
    h.memory⟩
  · intro j hj
    rw [hinode]
    by_cases hjv : j = n.ino v
    · rw [if_pos hjv, htype, h.svI_eq hv, hjv]
      exact h.objects.kind _ (h.mem_objs hv)
    · rw [if_neg hjv]
      exact h.objects.kind j hj
  · intro j hj
    rw [hinode]
    show _ = (n.setLinks (n.ino v) m.sfiLinkcount).links j
    rw [links_setLinks]
    by_cases hjv : j = n.ino v
    · rw [if_pos hjv, if_pos hjv]
    · rw [if_neg hjv, if_neg hjv]
      exact h.objects.links j hj
  · intro j hj hd
    rw [hinode, slots_setSlots]
    by_cases hjv : j = n.ino v
    · rw [if_pos hjv, if_pos hjv]
      exact hsize (hjv ▸ hd)
    · rw [if_neg hjv, if_neg hjv]
      exact h.objects.size j hj hd
  · intro j hj hd k hk
    rw [slots_setSlots] at hk
    have hkeep : ∀ r, s.fs.refAt j r ≠ 0 → (s.fs.setInode v m).refAt j r ≠ 0 := fun r h0 => by
      rwa [hw.refAt_setMeta hin hdirect hindirect]
    refine dataRef_ne_zero hkeep ?_
    by_cases hjv : j = n.ino v
    · rw [if_pos hjv] at hk
      rw [hjv]
      exact hmapped (hjv ▸ hd) k hk
    · rw [if_neg hjv] at hk
      exact h.objects.mapped j hj hd k hk
  · show update s.slots _ l = update n.slots _ l
    rw [h.slots]
  · intro j hj
    rw [slots_setSlots]
    by_cases hjv : j = n.ino v
    · rw [if_pos hjv]
      exact hblank fun hd => hj ⟨hjv ▸ h.mem_objs hv, hjv ▸ hd⟩
    · rw [if_neg hjv]
      exact h.blank j hj

theorem blank_kind (hd : n.kind i ≠ .dir) : n.slots i = [] :=
  h.blank i fun hc => hd hc.2

section

variable (hv : 0 < n.refs v)

include hv

theorem fits : (s.fs.heap v).svI.Fits := by
  rw [h.svI_eq hv]
  exact h.objects.wf.fits _ (h.mem_objs hv)

theorem setLinkcount {k : Nat} (hk : k < 65536) :
    Stands t { s with fs := s.fs.setInode v { (s.fs.heap v).svI with sfiLinkcount := k } }
      (n.setLinks (n.ino v) k) := by
  have hf := h.fits hv
  have hobj := h.mem_objs hv
  have hset := h.setMeta hv (m := { (s.fs.heap v).svI with sfiLinkcount := k })
    (l := n.slots (n.ino v)) ⟨hf.size, hk, hf.direct, hf.indirect⟩ rfl rfl rfl
    (fun hd => (congrArg SfsInode.sfiSize (h.svI_eq hv)).trans (h.objects.size _ hobj hd))
    (fun hd => h.objects.mapped _ hobj hd) h.blank_kind
  have hslots : update s.slots (n.ino v) (n.slots (n.ino v)) = s.slots := by
    rw [← h.slots, update_eq_self]
  rw [hslots] at hset
  exact (setSlots_self (n := n.setLinks (n.ino v) k)) ▸ hset

theorem incLinks : Wp p (incLinks v)
      (fun _ s' => Stands t s' (n.setLinks (n.ino v) ((n.links (n.ino v) + 1) % 65536)))
      (fun _ _ => False) s := by
  have hl : (s.fs.heap v).svI.sfiLinkcount = n.links (n.ino v) := by
    rw [h.svI_eq hv, h.objects.links _ (h.mem_objs hv)]
  simp only [Os161.incLinks, onVolume, modifyInode, wp_zoom, wp_modify, hl]
  exact h.setLinkcount hv (Nat.mod_lt _ (by decide))

theorem decLinks (hp : n.links (n.ino v) = 0 → p) :
    Wp p (decLinks v) (fun _ s' => 0 < n.links (n.ino v) ∧
        Stands t s' (n.setLinks (n.ino v) (n.links (n.ino v) - 1)))
      (fun _ _ => False) s := by
  have hl : (s.fs.heap v).svI.sfiLinkcount = n.links (n.ino v) := by
    rw [h.svI_eq hv, h.objects.links _ (h.mem_objs hv)]
  have hlt := (h.fits hv).linkcount
  simp only [Os161.decLinks, onVolume, vnodeAt, modifyInode, wp_bind, wp_zoom,
    wp_get, wp_pure, wp_assert, wp_modify, hl]
  refine ⟨fun hpos => ⟨hpos, h.setLinkcount hv (by omega)⟩, fun h0 => hp (by omega)⟩

end

theorem grows {fs' : SfsFs} (hw : Wf t fs' n.objs)
    (hg : Grows n.objs s.fs fs' i) : Stands t { s with fs := fs' } n where
  objects := h.objects.congr hw (fun _ => id) rfl rfl rfl hg.same fun j hj r h0 => by
    rwa [hg.keep j hj r h0]
  vnodes := h.vnodes.of_frame hg.frame
  slots := h.slots
  blank := h.blank
  memory := fun ht k => by
    rw [hg.frame.kmallocOk]
    exact h.memory ht k

theorem overwrite (hi : i ∈ n.objs) (hd : n.kind i = .dir) (hlen : l.length = (n.slots i).length) :
    Stands t { s with slots := update s.slots i l } (n.setSlots i l) := by
  have hlen' : ∀ j, ((n.setSlots i l).slots j).length = (n.slots j).length := by
    intro j
    rw [slots_setSlots]
    by_cases hj : j = i
    · rw [if_pos hj, hlen, hj]
    · rw [if_neg hj]
  refine ⟨⟨h.objects.wf, h.objects.kind, h.objects.links, ?_, ?_⟩,
    { h.vnodes with }, ?_, ?_, h.memory⟩
  · intro j hj hdj
    rw [hlen']
    exact h.objects.size j hj hdj
  · intro j hj hdj k hk
    rw [hlen'] at hk
    exact h.objects.mapped j hj hdj k hk
  · show update s.slots i l = update n.slots i l
    rw [h.slots]
  · intro j hj
    have hji : j ≠ i := by
      rintro rfl
      exact hj ⟨hi, hd⟩
    rw [slots_setSlots, if_neg hji]
    exact h.blank j hj

section

variable (hv : 0 < n.refs v) (hd : n.kind (n.ino v) = .dir)

include hv hd

theorem dirSize : (s.fs.heap v).svI.sfiSize = sfsDirSize * (n.slots (n.ino v)).length := by
  rw [h.svI_eq hv, h.objects.size _ (h.mem_objs hv) hd]

/-- An entry is in a block that is mapped, and the length is adjusted. -/
theorem wrote (hslot : slot ≤ (n.slots (n.ino v)).length)
    (hb : s.fs.dataRef (n.ino v) (slot * sfsDirSize / sectSize) ≠ 0) (sd : SfsDir) :
    Stands t ⟨s.fs.extend v (slot * sfsDirSize + sfsDirSize),
        update s.slots (n.ino v) (writeSlot (n.slots (n.ino v)) slot sd)⟩
      (n.setSlots (n.ino v) (writeSlot (n.slots (n.ino v)) slot sd)) := by
  have hobj := h.mem_objs hv
  rw [SfsFs.extend, h.dirSize hv hd]
  by_cases hlt : slot < (n.slots (n.ino v)).length
  · have hle : ¬ sfsDirSize * (n.slots (n.ino v)).length < slot * sfsDirSize + sfsDirSize := by
      simp only [sfsDirSize]
      omega
    rw [if_neg hle, writeSlot, if_pos hlt]
    exact h.overwrite hobj hd List.length_set
  · -- the slot is the next one, and the directory grows
    obtain rfl : slot = (n.slots (n.ino v)).length := Nat.le_antisymm hslot (Nat.le_of_not_lt hlt)
    have hgrow : sfsDirSize * (n.slots (n.ino v)).length <
        (n.slots (n.ino v)).length * sfsDirSize + sfsDirSize := by
      simp only [sfsDirSize]
      omega
    have hsmall := lt_of_dataRef hb
    have hu32 : u32 ((n.slots (n.ino v)).length * sfsDirSize + sfsDirSize) =
        sfsDirSize * ((n.slots (n.ino v)).length + 1) := by
      simp only [sfsDirSize, sectSize, u32] at hsmall ⊢
      omega
    have hf := h.fits hv
    have hlen : (writeSlot (n.slots (n.ino v)) (n.slots (n.ino v)).length sd).length =
        (n.slots (n.ino v)).length + 1 := by
      simp [writeSlot]
    have hset := h.setMeta hv (m := { (s.fs.heap v).svI with
        sfiSize := u32 ((n.slots (n.ino v)).length * sfsDirSize + sfsDirSize) })
      (l := writeSlot (n.slots (n.ino v)) (n.slots (n.ino v)).length sd)
      ⟨Nat.mod_lt _ (by decide), hf.linkcount, hf.direct, hf.indirect⟩ rfl rfl rfl
      (fun _ => by rw [hlen]; exact hu32) ?_ (fun hc => absurd hd hc)
    · rw [if_pos hgrow]
      have hl : n.setLinks (n.ino v) (s.fs.heap v).svI.sfiLinkcount = n := by
        rw [h.svI_eq hv, h.objects.links _ hobj]
        exact setLinks_self
      rwa [hl] at hset
    · intro _ k hk
      rw [hlen] at hk
      rcases Nat.lt_succ_iff_lt_or_eq.mp hk with hk | rfl
      · exact h.objects.mapped _ hobj hd k hk
      · exact hb

/-- **`sfs_writedir`** to a slot of the directory or to the next one.  Only the latter can fail, and
then nothing has changed. -/
theorem writedir
    (hslot : slot ≤ (n.slots (n.ino v)).length) (sd : SfsDir) : Wp p (sfsWritedir v sd slot)
      (fun _ s' => Stands t s' (n.setSlots (n.ino v) (writeSlot (n.slots (n.ino v)) slot sd)))
      (fun _ s' => slot = (n.slots (n.ino v)).length ∧ Stands t s' n) s := by
  have hin := (h.pos_iff v).mp hv
  have hbmap := sfsBmap_spec h.objects.wf hin (slot * sfsDirSize / sectSize) true
  rw [h.svIno_eq hv] at hbmap
  rw [sfsWritedir]
  simp only [wp_bind, wp_attempt, onVolume, wp_zoom]
  refine hbmap.weaken.imp ?_ ?_
  · intro b fs' hok
    have h' := h.grows hok.wf hok.grows
    have hb : fs'.dataRef (n.ino v) (slot * sfsDirSize / sectSize) ≠ 0 :=
      hok.block ▸ hok.mapped rfl
    have hino : (fs'.heap v).svIno = n.ino v := h'.svIno_eq hv
    have hwrote := h'.wrote hv hd hslot hb sd
    rw [wp_modify]
    simp only [hino, h.slots] at hwrote ⊢
    exact hwrote
  · intro e fs' herr
    have h' := h.grows herr.wf herr.grows
    have heq : slot = (n.slots (n.ino v)).length := by
      refine Nat.le_antisymm hslot (Nat.le_of_not_lt fun hlt => ?_)
      exact h.objects.mapped _ (h.mem_objs hv) hd slot hlt herr.dataRef_eq_zero
    have hsz : (fs'.heap v).svI.sfiSize = sfsDirSize * (n.slots (n.ino v)).length :=
      h'.dirSize hv hd
    have hext : fs'.extend v (slot * sfsDirSize) = fs' := by
      rw [SfsFs.extend, hsz, heq, Nat.mul_comm, if_neg (Nat.lt_irrefl _)]
    simp only [wp_modify, wp_fail, hext]
    exact ⟨heq, h'⟩

/-- **`sfs_dir_unlink`** of a slot of the directory does not fail. -/
theorem dirUnlink (hslot : slot < (n.slots (n.ino v)).length) : Wp p (sfsDirUnlink v slot)
      (fun _ s' => Stands t s' (n.setSlots (n.ino v) ((n.slots (n.ino v)).set slot .zero)))
      (fun _ _ => False) s := by
  refine (h.writedir hv hd hslot.le .zero).imp (fun _ s' h' => ?_)
    (fun _ _ hf => absurd hf.1 (Nat.ne_of_lt hslot))
  rwa [writeSlot, if_pos hslot] at h'

/-- **`sfs_dir_link`** fills an empty slot or the next one, if the name is new. -/
theorem dirLink (hp : ¬ Distinct (n.slots (n.ino v)) → p) (name : CString) (ino : Nat) :
    Wp p (sfsDirLink v name ino) (fun slot s' => (∀ d ∈ n.slots (n.ino v), d.Live → d.name ≠ name) ∧
        name.strlen + 1 ≤ sfsNamelen ∧ IsFree (n.slots (n.ino v)) slot ∧
        Stands t s' (n.setSlots (n.ino v) (writeSlot (n.slots (n.ino v)) slot (.make ino name))))
      (fun _ s' => Stands t s' n) s := by
  refine (h.isDir hv hd).wp_dirLink hp (fun _ => h) fun slot hnew hfits hfree => ?_
  rw [wp_bind]
  refine (h.writedir hv hd hfree.le (.make ino name)).imp (fun _ s' h' => ?_) (fun _ _ hf => hf.2)
  exact wp_pure.mpr ⟨hnew, hfits, hfree, h'⟩

theorem linkObject (hp : ¬ Distinct (n.slots (n.ino v)) → p) (hw : 0 < n.refs w) (name : CString) :
    Wp p (linkObject v name w) (fun slot s' => (∀ d ∈ n.slots (n.ino v), d.Live → d.name ≠ name) ∧
        name.strlen + 1 ≤ sfsNamelen ∧ IsFree (n.slots (n.ino v)) slot ∧
        Stands t s' ((n.setSlots (n.ino v) (writeSlot (n.slots (n.ino v)) slot
          (.make (n.ino w) name))).setLinks (n.ino w) ((n.links (n.ino w) + 1) % 65536)))
      (fun _ s' => Stands t s' n) s := by
  simp only [Os161.linkObject, inoOf, onVolume, vnodeAt, wp_bind, wp_zoom, wp_get,
    wp_pure, h.svIno_eq hw]
  refine (h.dirLink hv hd hp name (n.ino w)).post ?_
  rintro slot s₁ ⟨hnew, hfits, hfree, h1⟩
  refine (h1.incLinks hw).post_ok fun _ s' h' => ?_
  exact ⟨hnew, hfits, hfree, h'⟩

/-- **`sfs_lookonce`** takes a reference to the object that the name stands for. -/
theorem lookonce (hp : ¬ Distinct (n.slots (n.ino v)) → p) {name : CString}
    (hnamed : ∀ d ∈ n.slots (n.ino v), d.Live → d.name = name → d.sfdIno ∈ n.objs)
    (hlinks : ∀ d ∈ n.slots (n.ino v), d.Live → d.name = name → n.links d.sfdIno = 0 → p) :
    Wp p (sfsLookonce v name)
      (fun r s' => ∃ d, (n.slots (n.ino v))[r.2]? = some d ∧ d.Live ∧ d.name = name ∧
        0 < n.links d.sfdIno ∧ (0 < n.refs r.1 → n.ino r.1 = d.sfdIno) ∧
        Stands t s' (n.take r.1 d.sfdIno))
      (fun e s' => (e = .enoent ∧ (∀ d ∈ n.slots (n.ino v), d.Live → d.name ≠ name) ∨
        e = .enomem ∧ ¬ t ∧ ∃ d ∈ n.slots (n.ino v), d.Live ∧ d.name = name ∧
          ∀ w, 0 < n.refs w → n.ino w ≠ d.sfdIno) ∧ Stands t s' n) s := by
  rw [sfsLookonce]
  refine (sfsDirFindname_spec (h.isDir hv hd) hp name).bind_ok ?_
  rintro r _ ⟨rfl, hr⟩
  cases hf : r.found with
  | none => exact wp_fail.mpr ⟨.inl ⟨rfl, hr.miss hf⟩, h⟩
  | some is =>
    obtain ⟨d, hget, hlive, hino, hname⟩ := hr.hit is.1 is.2 hf
    have hmem := List.mem_of_getElem? hget
    have hobj := hnamed d hmem hlive hname
    simp only [wp_bind]
    rw [← hino]
    refine (h.loadvnode hobj).imp ?_ fun e s' he =>
      ⟨.inr ⟨he.1, he.2.2.1, d, hmem, hlive, hname, he.2.2.2⟩, he.2.1⟩
    rintro w s' ⟨hold, h'⟩
    have hw : 0 < (n.take w d.sfdIno).refs w := refs_take_pos ..
    have hwi : (n.take w d.sfdIno).ino w = d.sfdIno := by rw [ino_take, if_pos rfl]
    have hl : (s'.fs.heap w).svI.sfiLinkcount = n.links d.sfdIno := by
      rw [h'.svI_eq hw, hwi, h'.objects.links _ (hwi ▸ h'.mem_objs hw)]
      rfl
    simp only [onVolume, vnodeAt, wp_zoom, wp_bind, wp_get, wp_pure, wp_assert, hl]
    refine ⟨fun hpos => ⟨d, hget, hlive, hname, Nat.pos_of_ne_zero hpos, hold, h'⟩,
      fun h0 => hlinks d hmem hlive hname (not_not.mp h0)⟩

end

end

end Stands

end Below

end Os161
