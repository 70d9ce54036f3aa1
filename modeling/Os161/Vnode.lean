/-
# `kern/vfs/vnode.c`: reference counts of vnodes

`vnode_decref` takes its decision under the count lock and acts on it after the lock is
released: if the count is 1 it leaves the count ALONE, hands the reference over to
`VOP_RECLAIM`, and expects the file system to consume it.  The model keeps the two halves
apart: `vnodeDecref` is the locked half, and its result says whether the call goes on to
reclaim.  A run in which other threads act between the halves is then just a run in which other
steps come between them.
-/
import Os161.Uio

namespace Os161

/-- The counters of `struct vnode`. -/
structure Vnode where
  vnRefcount : Nat
  vnOpencount : Nat
  deriving DecidableEq

/-- The counters `vnode_init` sets. -/
def vnodeInit : Vnode := ⟨1, 0⟩

/-- `vnode_incref`. -/
def vnodeIncref (vn : Vnode) : Vnode := { vn with vnRefcount := vn.vnRefcount + 1 }

/-- The part of `vnode_decref` under the count lock; `true` means that `VOP_RECLAIM` follows. -/
def vnodeDecref : Prog Errno Vnode Bool := do
  let vn ← get
  assert (0 < vn.vnRefcount)
  if 1 < vn.vnRefcount then
    modify fun vn => { vn with vnRefcount := vn.vnRefcount - 1 }
    pure false
  else
    pure true

/-- `vnode_cleanup`. -/
def vnodeCleanup : Prog Errno Vnode Unit := do
  let vn ← get
  assert (vn.vnRefcount = 1)
  assert (vn.vnOpencount = 0)
  modify fun _ => ⟨0, 0⟩

/-- `vnode_incopen`. -/
def vnodeIncopen (vn : Vnode) : Vnode := { vn with vnOpencount := vn.vnOpencount + 1 }

/-- The part of `vnode_decopen` under the count lock; `true` means that `VOP_CLOSE` follows. -/
def vnodeDecopen : Prog Errno Vnode Bool := do
  let vn ← get
  assert (0 < vn.vnOpencount)
  modify fun vn => { vn with vnOpencount := vn.vnOpencount - 1 }
  pure (vn.vnOpencount - 1 = 0)

/-- The locked half of a decref on a vnode somebody holds: it either takes one off the count, or
leaves it at 1 and asks for a reclaim. -/
theorem vnodeDecref_spec {p : Prop} {vn : Vnode} (h : 0 < vn.vnRefcount) : Wp p vnodeDecref
      (fun doIt vn' => vn'.vnOpencount = vn.vnOpencount ∧
        ((doIt = true ∧ vn.vnRefcount = 1 ∧ vn' = vn) ∨
          (doIt = false ∧ 1 < vn.vnRefcount ∧ vn'.vnRefcount + 1 = vn.vnRefcount)))
      (fun _ _ => False) vn := by
  simp only [vnodeDecref, wp_bind, wp_get, wp_assert]
  refine ⟨fun _ => ?_, fun h' => absurd h h'⟩
  by_cases h1 : 1 < vn.vnRefcount
  · rw [if_pos h1, wp_bind, wp_modify, wp_pure]
    exact ⟨rfl, Or.inr ⟨rfl, h1, Nat.sub_add_cancel h⟩⟩
  · rw [if_neg h1, wp_pure]
    exact ⟨rfl, Or.inl ⟨rfl, by omega, rfl⟩⟩

end Os161
