/-
# The names on a fresh volume

`mksfs` writes a root directory without entries.  Mounting the volume and getting its root gives the
state that runs of the operations on names can start from.
-/
import Os161.Mksfs
import Os161.Sfs.Names

namespace Os161

open Classical

/-- The names on a fresh volume. -/
def freshNames : Names where
  objs := {sfsRootLocation}
  kind := fun _ => .dir
  links := fun _ => 1
  slots := fun _ => []
  refs := fun _ => 0
  opens := fun _ => 0
  ino := fun _ => 0

theorem Formatted.stands {fs : SfsFs} (h : Formatted fs.sfsDevice) (hd : fs.sfsDevice.Reliable)
    (k : Nat) (hmem : ∀ j, fs.kmallocOk j = true) :
    Stands True ⟨fs.mounted k, fun _ => []⟩ freshNames := by
  have hinode : (fs.mounted k).inode sfsRootLocation = rootInode := h.root
  refine ⟨⟨h.wf hd k, ?_, ?_, ?_, ?_⟩, ⟨fun v => ?_, ?_, fun v => ?_, fun v => Nat.le_refl _⟩, rfl,
    fun _ _ => rfl, fun _ j => hmem _⟩
  · rintro i rfl
    rw [hinode]
    rfl
  · rintro i rfl
    rw [hinode]
    rfl
  · rintro i rfl -
    rw [hinode]
    rfl
  · rintro i - - j hj
    exact absurd hj (Nat.not_lt_zero j)
  · rfl
  · simp [SfsFs.mounted]
  · rfl

theorem fresh_root :
    ∃ (s : DirFs) (v : Nat), Stands True s (freshNames.take v sfsRootLocation) := by
  obtain ⟨d, m, fs, k, -, ⟨hform, -, hrel⟩, -, rfl⟩ := fresh_volume fun _ => 0
  have hs : Stands True ⟨(blankSfs d fun _ => 0).mounted k, fun _ => []⟩ freshNames :=
    Formatted.stands hform hrel k fun _ => rfl
  obtain ⟨v, s, -, -, hs'⟩ :=
    ((hs.loadvnode rfl).noError fun e s' he => he.2.2.1 trivial).exists_ok
  exact ⟨s, v, hs'⟩

end Os161
