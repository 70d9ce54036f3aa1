/-
# `kern/thread/thread.c`: the pid table

`add_pid_table` gives out the pid after the last one in a linked list, `remove_pid_table` takes an
entry out.  The entry at the head is special: it can be taken out only when it is the only one, so a
thread that was created first leaves its entry behind when it exits before the others.  That is no
harm to the other pids: the list stays sorted, and a new pid is larger than everything in it.

It is no set either way (`removes_exactly_iff`): who exits first cannot be taken out, and a table of
one entry is emptied whatever the pid, after which `pid_exists` panics.

What does harm is the end of the range.  When the last pid is larger than `MAX_PID` the function
returns `EINVAL`, which is 8, and `thread_create` records it as the pid of the new thread.
-/
import Os161.Lib.Run
import Os161.Uio

namespace Os161

open List

/-! ## 1. The code -/

/-- `__PID_MIN`. -/
def pidMin : Nat := 2

/-- `MAX_PID`. -/
def maxPid : Nat := 300

/-- `EINVAL`, the number. -/
def einvalCode : Nat := 8

/-- `pid_exists`, from the entry `curr` on. -/
def pidExistsFrom (pid curr : Nat) : List Nat → Bool
  | [] => curr == pid
  | next :: rest => if curr = pid then true else pidExistsFrom pid next rest

/-- `add_pid_table`, from the entry `prev` on: what it returns, and the entries from `prev` on after
it.  There is memory for the entry. -/
def addPidFrom (prev : Nat) : List Nat → Nat × List Nat
  | [] => if prev > maxPid then (einvalCode, [prev]) else (prev + 1, [prev, prev + 1])
  | curr :: rest =>
    if prev = curr then
      if prev > maxPid then (einvalCode, prev :: curr :: rest)
      else (prev + 1, prev :: (prev + 1) :: curr :: rest)
    else ((addPidFrom curr rest).1, prev :: (addPidFrom curr rest).2)

/-- `add_pid_table`. -/
def addPidTable : List Nat → Nat × List Nat
  | [] => (pidMin, [pidMin])
  | head :: rest => addPidFrom head rest

/-- The loop of `remove_pid_table`, over the entries after the head. -/
def unlinkPid (pid : Nat) : List Nat → Option (List Nat)
  | [] => none
  | curr :: rest => if curr = pid then some rest else (unlinkPid pid rest).map (curr :: ·)

/-- `remove_pid_table`. -/
def removePidTable (pid : Nat) (table : List Nat) : Option (Nat × List Nat) :=
  if pid < 2 then some (0, table)
  else
    match table with
    | [] => none
    | [_] => some (0, [])
    | head :: rest =>
      match unlinkPid pid rest with
      | none => some (einvalCode, head :: rest)
      | some rest' => some (0, head :: rest')

/-- `pid_list`, and the pids of the threads that have not exited. -/
structure Pids where
  table : List Nat
  live : List Nat
  deriving DecidableEq, Repr

/-- No thread yet. -/
def noPids : Pids := ⟨[], []⟩

/-- What happens to the table. -/
inductive PidOp
  /-- `thread_create`. -/
  | create
  /-- `sys__exit` of a thread with this pid. -/
  | exit (pid : Nat)
  deriving DecidableEq, Repr

/-- `thread_create` records what `add_pid_table` returns. -/
def PidOp.call : PidOp → Prog Errno Pids Nat
  | .create => do
    let s ← get
    let (pid, table) := addPidTable s.table
    modify fun _ => ⟨table, pid :: s.live⟩
    return pid
  | .exit pid => do
    let s ← get
    match removePidTable pid s.table with
    | none => halt
    | some (err, table) =>
      modify fun _ => ⟨table, s.live.erase pid⟩
      return err

/-- Only threads that are there exit. -/
def PidOp.Legal : PidOp → Pids → Prop
  | .create, _ => True
  | .exit pid, s => pid ∈ s.live

/-! ## 2. The functions -/

/-- There is a pid to give out: the last one is not larger than `MAX_PID`. -/
def PidRoom (table : List Nat) : Prop := ∀ pid ∈ table.getLast?, pid ≤ maxPid

variable {pid last : Nat} {l table : List Nat} {s : Pids}

/-- **`pid_exists`** looks the pid up. -/
theorem pidExistsFrom_iff :
    ∀ {rest : List Nat} {curr : Nat}, pidExistsFrom pid curr rest = true ↔ pid ∈ curr :: rest
  | [], curr => by rw [pidExistsFrom, beq_iff_eq, mem_singleton, eq_comm]
  | next :: rest, curr => by
    rw [pidExistsFrom, mem_cons]
    split_ifs with h
    · simp [h]
    · rw [pidExistsFrom_iff, or_iff_right (Ne.symm h)]

theorem addPidFrom_sorted : ∀ {rest : List Nat} {prev : Nat},
    (prev :: (rest ++ [last])).Pairwise (· < ·) → addPidFrom prev (rest ++ [last]) =
      if last > maxPid then (einvalCode, prev :: (rest ++ [last]))
      else (last + 1, prev :: (rest ++ [last] ++ [last + 1]))
  | [], prev, h => by
    have hne : prev ≠ last := Nat.ne_of_lt (rel_of_pairwise_cons h mem_cons_self)
    rw [nil_append, addPidFrom, if_neg hne, addPidFrom]
    split_ifs <;> rfl
  | curr :: rest, prev, h => by
    have hne : prev ≠ curr := Nat.ne_of_lt (rel_of_pairwise_cons h mem_cons_self)
    rw [cons_append, addPidFrom, if_neg hne, addPidFrom_sorted h.of_cons]
    split_ifs <;> rfl

/-- **`add_pid_table`** of a sorted table. -/
theorem addPidTable_sorted (h : (l ++ [last]).Pairwise (· < ·)) :
    addPidTable (l ++ [last]) = if last > maxPid then (einvalCode, l ++ [last])
      else (last + 1, l ++ [last] ++ [last + 1]) := by
  cases l with
  | nil => rfl
  | cons head rest => exact addPidFrom_sorted h

theorem pidRoom_concat : PidRoom (l ++ [last]) ↔ last ≤ maxPid := by
  simp [PidRoom]

theorem addPidTable_of_room (h : table.Pairwise (· < ·)) (hmin : ∀ p ∈ table, pidMin ≤ p)
    (hroom : PidRoom table) :
    ∃ pid, addPidTable table = (pid, table ++ [pid]) ∧ pidMin ≤ pid ∧ ∀ p ∈ table, p < pid := by
  rcases eq_nil_or_concat' table with rfl | ⟨l, last, rfl⟩
  · exact ⟨pidMin, rfl, Nat.le_refl _, nofun⟩
  · have hlast := pidRoom_concat.mp hroom
    refine ⟨last + 1, (addPidTable_sorted h).trans (if_neg (Nat.not_lt.mpr hlast)), ?_,
      fun p hp => ?_⟩
    · exact Nat.le_succ_of_le (hmin last (by simp))
    · rcases mem_append.mp hp with hp | hp
      · exact Nat.lt_succ_of_lt ((pairwise_append.mp h).2.2 p hp last (by simp))
      · exact Nat.lt_succ_of_le (Nat.le_of_eq (mem_singleton.mp hp))

theorem addPidTable_of_not_room (h : table.Pairwise (· < ·)) (hroom : ¬ PidRoom table) :
    addPidTable table = (einvalCode, table) := by
  rcases eq_nil_or_concat' table with rfl | ⟨l, last, rfl⟩
  · exact absurd (fun _ hp => nomatch hp) hroom
  · rw [pidRoom_concat] at hroom
    exact (addPidTable_sorted h).trans (if_pos (Nat.not_le.mp hroom))

theorem unlinkPid_eq (pid : Nat) :
    ∀ rest, unlinkPid pid rest = if pid ∈ rest then some (rest.erase pid) else none
  | [] => rfl
  | curr :: rest => by
    rw [unlinkPid, unlinkPid_eq pid rest, erase_cons]
    by_cases h : curr = pid
    · simp [h]
    · by_cases hmem : pid ∈ rest <;> simp [h, hmem, Ne.symm h]

theorem removePidTable_cons {head next : Nat} {rest : List Nat} (hmin : pidMin ≤ pid) :
    removePidTable pid (head :: next :: rest) =
      some (if pid ∈ next :: rest then (0, head :: (next :: rest).erase pid)
        else (einvalCode, head :: next :: rest)) := by
  have hlow : ¬ pid < 2 := Nat.not_lt.mpr hmin
  simp only [removePidTable, if_neg hlow, unlinkPid_eq]
  split_ifs <;> rfl

theorem removePidTable_sublist {table' : List Nat} {err : Nat}
    (heq : removePidTable pid table = some (err, table')) : table'.Sublist table := by
  unfold removePidTable at heq
  split at heq
  · cases heq
    exact List.Sublist.refl _
  · split at heq
    · cases heq
    · cases heq
      exact nil_sublist _
    · rw [unlinkPid_eq] at heq
      split at heq
      · cases heq
        exact List.Sublist.refl _
      · rename_i hin
        split_ifs at hin
        cases hin
        cases heq
        exact erase_sublist.cons_cons _

/-- **`remove_pid_table`** of a pid in the table: it comes back, takes out no other pid, and
leaves at most the entry itself. -/
theorem removePidTable_spec (hmin : pidMin ≤ pid) (hmem : pid ∈ table) :
    ∃ err table', removePidTable pid table = some (err, table') ∧
      table'.Sublist table ∧ ∀ p ∈ table, p ≠ pid → p ∈ table' := by
  match table with
  | [head] =>
    refine ⟨0, [], if_neg (show ¬ pid < 2 from Nat.not_lt.mpr hmin), nil_sublist _,
      fun p hp hne => ?_⟩
    exact absurd ((mem_singleton.mp hp).trans (mem_singleton.mp hmem).symm) hne
  | head :: next :: rest =>
    have heq : removePidTable pid (head :: next :: rest) = _ := removePidTable_cons hmin
    split_ifs at heq with hin
    · refine ⟨0, _, heq, removePidTable_sublist heq, fun p hp hne => ?_⟩
      rcases mem_cons.mp hp with hp | hp
      · exact hp ▸ mem_cons_self
      · exact mem_cons_of_mem _ ((mem_erase_of_ne hne).mpr hp)
    · exact ⟨einvalCode, _, heq, removePidTable_sublist heq, fun p hp _ => hp⟩

/-- The entry that `remove_pid_table` leaves is the one at the head, which is the smallest. -/
theorem removePidTable_left {table' : List Nat} {err : Nat} (hmin : pidMin ≤ pid)
    (hsorted : table.Pairwise (· < ·)) (heq : removePidTable pid table = some (err, table'))
    (hleft : pid ∈ table') : ∀ p ∈ table', pid ≤ p := by
  have hsub := removePidTable_sublist heq
  match table, heq with
  | [], _ => exact absurd (hsub.mem hleft) not_mem_nil
  | [head], _ =>
    intro p hp
    have hpid := mem_singleton.mp (hsub.mem hleft)
    exact Nat.le_of_eq (hpid.trans (mem_singleton.mp (hsub.mem hp)).symm)
  | head :: next :: rest, heq =>
    -- the pid can only be that of the head
    have hhead : pid = head := by
      have hnodup : (next :: rest).Nodup := hsorted.of_cons.imp Nat.ne_of_lt
      rw [removePidTable_cons hmin] at heq
      split_ifs at heq with hin
      · cases heq
        exact (mem_cons.mp hleft).resolve_right hnodup.not_mem_erase
      · cases heq
        exact (mem_cons.mp hleft).resolve_right hin
    intro p hp
    rcases mem_cons.mp (hsub.mem hp) with hp | hp
    · exact Nat.le_of_eq (hhead.trans hp.symm)
    · exact hhead ▸ Nat.le_of_lt (rel_of_pairwise_cons hsorted hp)

/-! ## 3. Runs -/

/-- What holds as long as there is room. -/
structure Pids.Ok (s : Pids) : Prop where
  sorted : s.table.Pairwise (· < ·)
  min : ∀ p ∈ s.table, pidMin ≤ p
  nodup : s.live.Nodup
  inTable : ∀ p ∈ s.live, p ∈ s.table

theorem noPids_ok : noPids.Ok := ⟨List.Pairwise.nil, nofun, nodup_nil, nofun⟩

/-- The creation finds room. -/
def PidOp.Room : PidOp → Pids → Prop
  | .create, s => PidRoom s.table
  | .exit _, _ => True

/-- **One creation or exit.**  It comes back, whatever it returns. -/
theorem PidOp.call_ok {op : PidOp} (hl : op.Legal s) (hroom : op.Room s) (h : s.Ok) :
    Wp False op.call (fun _ => Pids.Ok) (fun _ => Pids.Ok) s := by
  cases op with
  | create =>
    obtain ⟨pid, heq, hmin, hlt⟩ := addPidTable_of_room h.sorted h.min hroom
    simp only [PidOp.call, wp_bind, wp_get, heq, wp_modify, wp_pure]
    refine ⟨?_, ?_, ?_, ?_⟩
    · refine pairwise_append.mpr ⟨h.sorted, pairwise_singleton _ _, fun p hp q hq => ?_⟩
      rw [mem_singleton.mp hq]
      exact hlt p hp
    · intro p hp
      rcases mem_append.mp hp with hp | hp
      · exact h.min p hp
      · exact mem_singleton.mp hp ▸ hmin
    · refine nodup_cons.mpr ⟨fun hmem => ?_, h.nodup⟩
      exact Nat.lt_irrefl _ (hlt pid (h.inTable pid hmem))
    · intro p hp
      rcases mem_cons.mp hp with hp | hp
      · exact mem_append_right _ (mem_singleton.mpr hp)
      · exact mem_append_left _ (h.inTable p hp)
  | exit pid =>
    have hmem := h.inTable pid hl
    obtain ⟨err, table', heq, hsub, hkeep⟩ := removePidTable_spec (h.min pid hmem) hmem
    simp only [PidOp.call, wp_bind, wp_get, heq, wp_modify, wp_pure]
    refine ⟨h.sorted.sublist hsub, fun p hp => h.min p (hsub.mem hp), h.nodup.erase pid,
      fun p hp => ?_⟩
    obtain ⟨hne, hp⟩ := (h.nodup.mem_erase_iff).mp hp
    exact hkeep p (h.inTable p hp) hne

/-- What `add_pid_table` returns when it has not added an entry is no pid. -/
def FailureIsNoPid (table : List Nat) : Prop :=
  (addPidTable table).2 = table →
    (addPidTable table).1 < pidMin ∨ maxPid + 1 < (addPidTable table).1

/-- **Live pids are unique, as long as there is room.**  After any creations and exits where every
creation found the last pid at `MAX_PID` or below, the pids of the threads that have not exited
are different, and all in the table.  A failure of the next creation can be told from a pid
exactly if it cannot happen. -/
theorem live_pids_unique {s : Pids}
    (hrun : Run PidOp.call (fun op s => op.Legal s ∧ op.Room s) noPids s) :
    s.live.Nodup ∧ (∀ p ∈ s.live, p ∈ s.table) ∧ (FailureIsNoPid s.table ↔ PidRoom s.table) := by
  have h : s.Ok := hrun.invariant (fun _ _ hl hi => PidOp.call_ok hl.1 hl.2 hi) noPids_ok
  refine ⟨h.nodup, h.inTable, fun hno => ?_, fun hroom hfail => ?_⟩
  · by_contra hroom
    unfold FailureIsNoPid at hno
    rw [addPidTable_of_not_room h.sorted hroom] at hno
    exact absurd (hno rfl) (by simp [einvalCode, pidMin, maxPid])
  · obtain ⟨pid, heq, -⟩ := addPidTable_of_room h.sorted h.min hroom
    rw [heq] at hfail
    have hlen := congrArg length hfail
    simp at hlen

theorem Run.create {legal : PidOp → Pids → Prop} (h : Run PidOp.call legal noPids s)
    (hl : legal .create s) (hadd : addPidTable s.table = (pid, table)) :
    Run PidOp.call legal noPids ⟨table, pid :: s.live⟩ := by
  refine h.step hl (r := .ok pid) ?_
  have hrfl : PidOp.create.call s = some (.ok (addPidTable s.table).1,
      ⟨(addPidTable s.table).2, (addPidTable s.table).1 :: s.live⟩) := rfl
  rw [hrfl, hadd]

/-- Two threads are created and the first one exits, which leaves its entry at the head. -/
theorem live_pids_unique_head_stays : ∃ s : Pids,
    Run PidOp.call (fun op s => op.Legal s ∧ op.Room s) noPids s ∧ s.live = [3] ∧
      s.table = [2, 3] ∧ s.live.Nodup ∧ (∀ p ∈ s.live, p ∈ s.table) := by
  have h1 : Run PidOp.call (fun op s => op.Legal s ∧ op.Room s) noPids ⟨[2], [2]⟩ :=
    Run.refl.create ⟨trivial, fun _ hp => nomatch hp⟩ rfl
  have h2 : Run PidOp.call (fun op s => op.Legal s ∧ op.Room s) noPids ⟨[2, 3], [3, 2]⟩ :=
    h1.create ⟨trivial, by simp [PidOp.Room, PidRoom, maxPid]⟩ rfl
  have h3 : Run PidOp.call (fun op s => op.Legal s ∧ op.Room s) noPids ⟨[2, 3], [3]⟩ :=
    h2.step (show (PidOp.exit 2).Legal _ ∧ (PidOp.exit 2).Room _ from
      ⟨by simp [PidOp.Legal], trivial⟩) rfl
  exact ⟨_, h3, rfl, rfl, (live_pids_unique h3).1, (live_pids_unique h3).2.1⟩

/-- `add_pid_table` when the pids up to a certain one are all in use. -/
theorem addPidTable_range' {n : Nat} (hn : n < maxPid) :
    addPidTable (range' pidMin n) = (pidMin + n, range' pidMin (n + 1)) := by
  cases n with
  | zero => rfl
  | succ n =>
    have hsorted : (range' pidMin (n + 1)).Pairwise (· < ·) :=
      pairwise_lt_range' 1 Nat.one_pos
    rw [range'_concat] at hsorted ⊢
    rw [range'_concat, range'_concat, addPidTable_sorted hsorted, if_neg]
    · simp [Nat.add_assoc]
    · unfold maxPid pidMin at *
      omega

/-- After `n` creations, all with room, the pids are the first `n`. -/
theorem run_creates : ∀ n, n ≤ maxPid → ∃ live,
    Run PidOp.call PidOp.Legal noPids ⟨range' pidMin n, live⟩ ∧ ∀ p ∈ range' pidMin n, p ∈ live
  | 0, _ => ⟨[], .refl, nofun⟩
  | n + 1, hn => by
    obtain ⟨live, hrun, hlive⟩ := run_creates n (Nat.le_of_succ_le hn)
    refine ⟨(pidMin + n) :: live, hrun.create trivial (addPidTable_range' hn), fun p hp => ?_⟩
    rw [range'_concat, mem_append, mem_singleton, Nat.one_mul] at hp
    rcases hp with hp | hp
    · exact mem_cons_of_mem _ (hlive p hp)
    · exact hp ▸ mem_cons_self

/-- **Two threads can have the same pid**: with the pids up to 301 all in use, `thread_create`
makes a second thread with pid 8. -/
theorem exhausted_table_duplicates_pid :
    ¬ ∀ s : Pids, Run PidOp.call PidOp.Legal noPids s → s.live.Nodup := by
  intro hall
  obtain ⟨live, hrun, hlive⟩ := run_creates maxPid (Nat.le_refl _)
  have hmem : einvalCode ∈ live := by
    refine hlive einvalCode (mem_range'_1.mpr ?_)
    decide
  have hfull : addPidTable (range' pidMin maxPid) = (einvalCode, range' pidMin maxPid) := by
    refine addPidTable_of_not_room (pairwise_lt_range' 1 Nat.one_pos) fun hroom => ?_
    have hlast : 301 ∈ (range' pidMin maxPid).getLast? := by
      rfl
    exact absurd (hroom 301 hlast) (by decide)
  exact (nodup_cons.mp (hall _ (hrun.create trivial hfull))).1 hmem

/-! ## 4. The table as a set -/

/-- `pid_exists`, which panics if there is no table. -/
def pidExists (pid : Nat) : List Nat → Option Bool
  | [] => none
  | head :: rest => some (pidExistsFrom pid head rest)

/-- The tables that any calls of `add_pid_table` and `remove_pid_table` lead to. -/
inductive PidTable : List Nat → Prop
  | none : PidTable []
  | add {table : List Nat} (h : PidTable table) : PidTable (addPidTable table).2
  | remove {table table' : List Nat} {err : Nat} (pid : Nat) (h : PidTable table)
    (heq : removePidTable pid table = some (err, table')) : PidTable table'

theorem PidTable.sorted (h : PidTable table) :
    table.Pairwise (· < ·) ∧ ∀ p ∈ table, pidMin ≤ p := by
  induction h with
  | none => exact ⟨List.Pairwise.nil, nofun⟩
  | @add table _ ih =>
    by_cases hroom : PidRoom table
    · obtain ⟨pid, heq, hmin, hlt⟩ := addPidTable_of_room ih.1 ih.2 hroom
      rw [heq]
      refine ⟨pairwise_append.mpr ⟨ih.1, pairwise_singleton _ _, by simpa using hlt⟩, ?_⟩
      simpa [or_imp, forall_and] using ⟨ih.2, hmin⟩
    · rw [addPidTable_of_not_room ih.1 hroom]
      exact ih
  | remove pid _ heq ih =>
    have hsub := removePidTable_sublist heq
    exact ⟨ih.1.sublist hsub, fun p hp => ih.2 p (hsub.mem hp)⟩

/-- The removal of a pid as that of an element of a set: it takes out the pid and nothing else, or
says that it is not there, and `pid_exists` agrees with the table that is left. -/
def RemovesExactly (pid : Nat) (table : List Nat) : Prop :=
  ∃ err table', removePidTable pid table = some (err, table') ∧ (err = 0 ↔ pid ∈ table) ∧
    (∀ q, q ∈ table' ↔ q ∈ table ∧ q ≠ pid) ∧ (pid ∉ table → table' = table) ∧
    ∀ q, pidExists q table' = some (decide (q ∈ table'))

/-- **The pid table is a set, but for its head.**  A removal does what it should exactly if there
are two entries at least, and the pid is not that of the first.  That one is never found; a table
with one entry is emptied whatever the pid, and then nobody can ask for a pid any more. -/
theorem removes_exactly_iff (h : PidTable table) (hmin : 2 ≤ pid) :
    RemovesExactly pid table ↔ 1 < table.length ∧ table.head? ≠ some pid := by
  have hlow : ¬ pid < 2 := Nat.not_lt.mpr hmin
  match table, h with
  | [], _ => simp [RemovesExactly, removePidTable, hlow]
  | [_], _ => simp [RemovesExactly, removePidTable, hlow, pidExists]
  | head :: next :: rest, h =>
    have hnodup : (head :: next :: rest).Nodup := h.sorted.1.imp Nat.ne_of_lt
    obtain ⟨hhead, hrest⟩ := nodup_cons.mp hnodup
    have hexists : ∀ l q, pidExists q (head :: l) = some (decide (q ∈ head :: l)) := fun l q =>
      congrArg some (Bool.eq_iff_iff.mpr (pidExistsFrom_iff.trans decide_eq_true_iff.symm))
    have heq : removePidTable pid (head :: next :: rest) = _ := removePidTable_cons hmin
    constructor
    · rintro ⟨err, table', heq', herr, -⟩
      refine ⟨by simp, fun he => ?_⟩
      -- the head is in the table, and the loop does not look at it
      have hpid : head = pid := Option.some.inj he
      rw [heq, if_neg (hpid ▸ hhead)] at heq'
      cases heq'
      exact absurd (herr.mpr (hpid ▸ mem_cons_self)) (by decide)
    · rintro ⟨-, hne⟩
      have hne : pid ≠ head := fun he => hne (he ▸ rfl)
      split_ifs at heq with hin
      · refine ⟨0, _, heq, by simp [mem_cons.mp hin], fun q => ?_, fun hno => ?_, hexists _⟩
        · rw [mem_cons, mem_cons, hrest.mem_erase_iff]
          constructor
          · rintro (rfl | ⟨hq, hmem⟩)
            · exact ⟨.inl rfl, hne.symm⟩
            · exact ⟨.inr hmem, hq⟩
          · exact fun ⟨hq, hqp⟩ => hq.imp_right fun hmem => ⟨hqp, hmem⟩
        · exact absurd (mem_cons_of_mem _ hin) hno
      · have hno : pid ∉ head :: next :: rest := by
          rw [mem_cons, not_or]
          exact ⟨hne, hin⟩
        refine ⟨einvalCode, _, heq, iff_of_false (by decide) hno, fun q => ?_, fun _ => rfl,
          hexists _⟩
        exact ⟨fun hq => ⟨hq, fun he => hno (he ▸ hq)⟩, And.left⟩

/-- Three pids are given out, and the second is taken back. -/
theorem removes_exactly_interior : PidTable [2, 3, 4] ∧ RemovesExactly 3 [2, 3, 4] := by
  have h : PidTable [2, 3, 4] := .add (.add (.add .none))
  exact ⟨h, (removes_exactly_iff h (by decide)).mpr (by decide)⟩

/-- The first of two pids cannot be taken back. -/
theorem removes_head_never : PidTable [2, 3] ∧ removePidTable 2 [2, 3] = some (8, [2, 3]) ∧
    ¬ RemovesExactly 2 [2, 3] := by
  refine ⟨.add (.add .none), rfl, ?_⟩
  rintro ⟨err, table', heq, herr, -⟩
  cases heq
  exact absurd (herr.mpr (by decide)) (by decide)

end Os161
