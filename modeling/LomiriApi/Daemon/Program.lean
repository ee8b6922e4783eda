import LomiriApi.Daemon.CloseFiles
import LomiriApi.Daemon.Guarantee
import LomiriApi.Lib.Simulation

/-!
# Programs with a `Daemon`

A program sets up its `Daemon`, calls `daemonize_me` as often as it likes, catches what is
thrown, and does with its process what it likes in between.

- `Program.step`: with `daemonize_me` as it is, one system call after the other.
- `Program.stepInOnePiece`: with `daemonize_me` as one step, which delivers the daemon,
  or fails, or ends the process.
- `program_in_one_piece`: there is no difference, but for the masks and flags of signal
  actions.
- `never_terminal`: a daemon does not get a control terminal again.
- `more_than_once`: calls of `daemonize_me` that came before make no difference.
-/

namespace LomiriApi

open Lib Process

namespace Process

/-- Alike in all that `daemonize_me` promises to set or to leave alone: of the signal
actions these are the handlers. The masks and flags that come with them are not compared. -/
structure Like (p q : Process) : Prop where
  fds : ∀ k, p.fds.lookup k = q.fds.lookup k
  cwd : p.cwd = q.cwd
  umask : p.umask = q.umask
  handler : ∀ sig, (p.actions sig).handler = (q.actions sig).handler
  groupLeader : p.groupLeader = q.groupLeader
  sessionLeader : p.sessionLeader = q.sessionLeader
  controlTerminal : p.controlTerminal = q.controlTerminal

theorem Like.refl (p : Process) : p.Like p :=
  ⟨fun _ => rfl, rfl, rfl, fun _ => rfl, rfl, rfl, rfl⟩

/-- The same process, but for the representation of its table. -/
theorem like_of_lookup {p : Process} {fds : Slots OpenFile}
    (h : ∀ k, fds.lookup k = p.fds.lookup k) : Like { p with fds := fds } p :=
  { Like.refl p with fds := h }

/-- `open` on a terminal. A session leader without a control terminal acquires it, unless
it is that of another session. To prevent that, there is a second `fork`. -/
def openTerminal (path : Text) (possible free : Bool) (p : Process) : Process :=
  let q := (p.openFile (.file path .rdwr) possible).2
  if possible && free && p.sessionLeader && p.controlTerminal.isNone then
    { q with controlTerminal := some path }
  else q

end Process

/-! ## `daemonize_me` in one piece -/

/-- How a call of `daemonize_me` ends: in the process that goes on, or for good. The
parents, which have exited by then, are not followed. -/
inductive Ending where
  | returned (q : Process)
  /-- `SyscallException`, by its error -/
  | failed (err : Int) (q : Process)
  | ended

namespace Ending

def ofResult : EStateM.Result Ended Process Unit → Ending
  | .ok () q => .returned q
  | .error (.syscallException _ err) q => .failed err q
  | .error _ _ => .ended

/-- The same outcome, in processes that are alike. -/
inductive Like : Ending → Ending → Prop
  | returned {p q : Process} (h : p.Like q) : Like (.returned p) (.returned q)
  | failed {p q : Process} (err : Int) (h : p.Like q) : Like (.failed err p) (.failed err q)
  | ended : Like .ended .ended

end Ending

namespace DaemonImpl

/-- The daemon that was asked for, in the directory `dir`. -/
def delivered (d : DaemonImpl) (sys : System) (dir : Dir) (p : Process) : Process where
  fds := some devNull :: some devNull :: some devNull :: p.fds.drop 3
  cwd := dir
  umask := if d.setUmask_ then d.umask_.toBitVec.setWidth 9 else p.umask
  actions := fun sig =>
    if d.resetSignals_ && sys.resettable sig then defaultAction else p.actions sig
  groupLeader := false
  sessionLeader := false
  controlTerminal := none

/-- What a failure leaves after `chdir`, which takes the saved directory to undo. If that
could not be opened, the process is left in the new one. -/
def leftBehind (sys : System) (dir : Dir) (p : Process) : Process :=
  { p with cwd := if sys.openDot then p.cwd else dir }

/-- `daemonize_me` in one piece. The second `fork` fails in a process that leads a session
of its own already, which cannot be undone. -/
def inOnePiece (d : DaemonImpl) (sys : System) (p : Process) : Ending :=
  match d.requestedDir sys p, sys.firstFork, sys.secondFork with
  | .error err, _, _ => .failed err p
  | .ok dir, some err, _ => .failed err (leftBehind sys dir p)
  | .ok dir, none, some err =>
    .failed err { leftBehind sys dir p with
      groupLeader := true, sessionLeader := true, controlTerminal := none }
  | .ok dir, none, none =>
    -- `close_open_files` ends the process, or an assertion does
    if d.closeFds_ && sys.opendir || !sys.openDevNull then .ended
    else .returned (d.delivered sys dir p)

/-- After a failure, the files, the umask and the signal actions are the caller's; and its
place in a session, unless it was the second `fork` that failed. -/
structure Unharmed (sys : System) (p q : Process) : Prop where
  fds : q.fds = p.fds
  umask : q.umask = p.umask
  actions : q.actions = p.actions
  session : sys.secondFork = none →
    q.sessionLeader = p.sessionLeader ∧ q.controlTerminal = p.controlTerminal

theorem inOnePiece_cases (d : DaemonImpl) (sys : System) (p : Process) :
    (∃ dir, d.requestedDir sys p = .ok dir ∧
      d.inOnePiece sys p = .returned (d.delivered sys dir p)) ∨
    (∃ err q, d.inOnePiece sys p = .failed err q ∧ Unharmed sys p q) ∨
    d.inOnePiece sys p = .ended := by
  unfold inOnePiece
  cases d.requestedDir sys p with
  | error err => exact .inr (.inl ⟨err, p, rfl, rfl, rfl, rfl, fun _ => ⟨rfl, rfl⟩⟩)
  | ok dir =>
    cases sys.firstFork with
    | some err => exact .inr (.inl ⟨err, _, rfl, rfl, rfl, rfl, fun _ => ⟨rfl, rfl⟩⟩)
    | none =>
      cases hfork : sys.secondFork with
      | some err => exact .inr (.inl ⟨err, _, rfl, rfl, rfl, rfl, fun h => by simp [hfork] at h⟩)
      | none =>
        dsimp only
        split
        · exact .inr (.inr rfl)
        · exact .inl ⟨dir, rfl, rfl⟩

/-! ### The saved working directory -/

section Enter

variable {d : DaemonImpl} {sys : System} {p : Process}

/-- A file that cannot be opened. -/
theorem openFile_impossible (f : Process → OpenFile) (p : Process) :
    (modifyGet fun p => p.openFile (f p) false : Sys Int).run p = .ok (-1) p := rfl

/-- If `open(".")` fails, what `chdir` does is all that happens, and the pointer holds -1. -/
theorem enterWorkingDirectory_unopened (hempty : ¬ d.workingDirectory_.isEmpty = true)
    (hdot : sys.openDot = false) :
    (d.enterWorkingDirectory sys (.ofDeleter sys.indeterminate restoreWorkingDir)).run p =
      match sys.resolve p.cwd (cStr d.workingDirectory_) with
      | .ok dir => .ok ⟨-1, restoreWorkingDir, true⟩ { p with cwd := dir }
      | .error errno => .error (.syscallException
          ("chdir(\"" ++ cStr d.workingDirectory_ ++ "\") failed") errno) p := by
  rw [enterWorkingDirectory, if_neg hempty, hdot, bind_ok (openFile_impossible _ p)]
  refine (bind_ok (x := callDeleter none) rfl).trans ?_
  cases hdir : sys.resolve p.cwd (cStr d.workingDirectory_) with
  | ok dir =>
    have hchdir : (modifyGet (Process.chdir sys (cStr d.workingDirectory_)) :
        Sys (Option Int)).run p = .ok none { p with cwd := dir } := by
      rw [EStateM.run_modifyGet, Process.chdir, hdir]
    rw [bind_ok hchdir]
    rfl
  | error errno =>
    have hchdir : (modifyGet (Process.chdir sys (cStr d.workingDirectory_)) :
        Sys (Option Int)).run p = .ok (some errno) p := by
      rw [EStateM.run_modifyGet, Process.chdir, hdir]
    rw [bind_ok hchdir]
    rfl

/-- Without a descriptor nothing is restored. -/
theorem enterWorkingDirectory_unsaved {dir : Dir} (hdot : sys.openDot = false)
    (hdir : d.requestedDir sys p = .ok dir) :
    ∃ ptr, (d.enterWorkingDirectory sys (.ofDeleter sys.indeterminate restoreWorkingDir)).run p =
        .ok ptr { p with cwd := dir } ∧ ∀ q, (destroy ptr).run q = .ok () q := by
  by_cases hempty : d.workingDirectory_.isEmpty = true
  · rw [requestedDir, if_pos hempty] at hdir
    obtain rfl := Except.ok.inj hdir
    rw [enterWorkingDirectory, if_pos hempty]
    exact ⟨_, rfl, destroy_of_not_held rfl⟩
  · rw [requestedDir, if_neg hempty] at hdir
    rw [enterWorkingDirectory_unopened hempty hdot, hdir]
    exact ⟨_, rfl, fun q => rfl⟩

/-- After `chdir`, the pointer has what is needed to go on, and to give up. -/
theorem enterWorkingDirectory_entered {dir : Dir} (hdir : d.requestedDir sys p = .ok dir) :
    ∃ ptr fds,
      (d.enterWorkingDirectory sys (.ofDeleter sys.indeterminate restoreWorkingDir)).run p =
        .ok ptr { p with fds := fds, cwd := dir } ∧
      Saves ptr fds p.fds ∧ GivesBack ptr fds dir (leftBehind sys dir p) := by
  obtain ⟨ptr, fds, henter, hsaves⟩ := enterWorkingDirectory_ok hdir
  refine ⟨ptr, fds, henter, hsaves, ?_⟩
  cases hdot : sys.openDot with
  | true =>
    rw [leftBehind, hdot, if_pos rfl]
    rcases enterWorkingDirectory_cases (d := d) (p := p) hdot with
      ⟨ptr', fds', dir', -, henter', hgives⟩ | ⟨reason, errno, fds', hdir', -, -⟩
    · rw [henter] at henter'
      obtain ⟨rfl, hp⟩ := EStateM.Result.ok.inj henter'
      obtain ⟨rfl, rfl⟩ : fds = fds' ∧ dir = dir' :=
        ⟨congrArg Process.fds hp, congrArg Process.cwd hp⟩
      exact hgives
    · rw [hdir] at hdir'
      cases hdir'
  | false =>
    obtain ⟨ptr', henter', hdestroy⟩ := enterWorkingDirectory_unsaved hdot hdir
    rw [henter] at henter'
    obtain ⟨rfl, hp⟩ := EStateM.Result.ok.inj henter'
    obtain rfl : fds = p.fds := congrArg Process.fds hp
    rintro q hfds rfl
    refine ⟨q.fds, ?_, fun k => by rw [hfds]; rfl⟩
    rw [hdestroy, leftBehind, hdot]
    rfl

/-- `chdir` fails, and nothing has changed. -/
theorem enterWorkingDirectory_failed {errno : Int} (hdir : d.requestedDir sys p = .error errno) :
    ∃ reason fds,
      (d.enterWorkingDirectory sys (.ofDeleter sys.indeterminate restoreWorkingDir)).run p =
        .error (.syscallException reason errno) { p with fds := fds } ∧
      ∀ k, fds.lookup k = p.fds.lookup k := by
  cases hdot : sys.openDot with
  | true =>
    rcases enterWorkingDirectory_cases (d := d) (p := p) hdot with
      ⟨ptr, fds, dir, hdir', -, -⟩ | ⟨reason, errno', fds, hdir', henter, hfds⟩
    · rw [hdir] at hdir'
      cases hdir'
    · obtain rfl := Except.error.inj (hdir.symm.trans hdir')
      exact ⟨reason, fds, henter, hfds⟩
  | false =>
    by_cases hempty : d.workingDirectory_.isEmpty = true
    · rw [requestedDir, if_pos hempty] at hdir
      cases hdir
    · rw [requestedDir, if_neg hempty] at hdir
      rw [enterWorkingDirectory_unopened hempty hdot, hdir]
      exact ⟨_, p.fds, rfl, fun _ => rfl⟩

end Enter

/-! ### The second child -/

section Committed

variable {d : DaemonImpl} {sys : System}

/-- The slots of a table whose first three are on `/dev/null`. -/
theorem lookup_standard (fds : Slots OpenFile) (k : Nat) :
    Slots.lookup (some devNull :: some devNull :: some devNull :: fds.drop 3) k =
      if k ≤ 2 then some devNull else fds.lookup k := by
  match k with
  | 0 => rfl
  | 1 => rfl
  | 2 => rfl
  | k + 3 =>
    rw [if_neg (by omega), Slots.lookup, Slots.lookup, List.getElem?_cons_succ,
      List.getElem?_cons_succ, List.getElem?_cons_succ, List.getElem?_drop, Nat.add_comm]

/-- The standard descriptors are closed, and no other, if there is no directory stream. -/
theorem closeOpenFiles_standard (h : (d.closeFds_ && sys.opendir) = false) (p : Process) :
    (d.closeOpenFiles sys).run p = .ok () { p with fds := ((p.fds.clear 0).clear 1).clear 2 } := by
  cases hclose : d.closeFds_ with
  | false => exact closeOpenFiles_ok hclose sys p
  | true =>
    rw [hclose, Bool.true_and] at h
    unfold closeOpenFiles
    refine (bind_ok (EStateM.run_modify _ _)).trans ?_
    refine (bind_ok (EStateM.run_modify _ _)).trans ?_
    refine (bind_ok (EStateM.run_modify _ _)).trans ?_
    rw [if_pos hclose, h]
    refine (bind_ok (openFile_impossible _ _)).trans ?_
    rw [if_pos rfl]
    rfl

/-- Without `/dev/null` the first assertion fails. -/
theorem openStandard_aborts (hnull : sys.openDevNull = false) (p : Process) :
    (openStandard sys).run p = .error .aborted p := by
  rw [openStandard, hnull]
  refine (bind_ok (openFile_impossible _ p)).trans ?_
  exact bind_error rfl

/-- `daemonize_me` in the second child. -/
def commit (d : DaemonImpl) (sys : System) (ptr : OldWorkingDir) (oldAction : SigAction) :
    Sys Unit := do
  let ptr ← dropWorkingDir ptr
  d.settleSignals sys oldAction
  d.closeOpenFiles sys
  openStandard sys
  destroy ptr

/-- What the second child is like at first. -/
def secondChild (d : DaemonImpl) (sys : System) (caller : Process) (fds : Slots OpenFile)
    (dir : Dir) : Process :=
  (d.beforeSecondFork sys caller fds dir).fork

/-- The second child ends, or it becomes the daemon. -/
theorem commit_outcome (d : DaemonImpl) (caller : Process) {ptr : OldWorkingDir}
    {fds : Slots OpenFile} {dir : Dir} (hsaves : Saves ptr fds caller.fds)
    (hproc : ∀ fds, Lists (sys.procSelfFd fds) fds) :
    (Ending.ofResult ((d.commit sys ptr (caller.oldAction sys sighup SigAction.zero)).run
        (d.secondChild sys caller fds dir))).Like
      (if d.closeFds_ && sys.opendir || !sys.openDevNull then .ended
        else .returned (d.delivered sys dir caller)) := by
  obtain ⟨ptr', fds₂, hdrop, hheld, hfds₂⟩ := dropWorkingDir_ok
    (p := d.secondChild sys caller fds dir) hsaves
  obtain ⟨actions, hsettle, hhandlers⟩ := settleSignals_ok d sys caller
    (p := { d.secondChild sys caller fds dir with fds := fds₂ }) rfl
  rw [commit, bind_ok hdrop, bind_ok hsettle]
  cases hstream : d.closeFds_ && sys.opendir with
  | true =>
    obtain ⟨hclose, hopen⟩ := Bool.and_eq_true_iff.mp hstream
    have hdot : ∀ fds, ("." : Text) ∈ sys.procSelfFd fds :=
      fun fds => (hproc fds).mem_iff.mpr List.mem_cons_self
    rw [bind_error (closeOpenFiles_aborts_of hclose hopen (hdot _) stoi_dot)]
    exact .ended
  | false =>
    rw [bind_ok (closeOpenFiles_standard hstream _)]
    cases hnull : sys.openDevNull with
    | false =>
      rw [bind_error (openStandard_aborts hnull _)]
      exact .ended
    | true =>
      obtain ⟨fds₃, hopen, hstandard⟩ := openStandard_ok hnull
        (p := { d.secondChild sys caller fds dir with
          fds := ((fds₂.clear 0).clear 1).clear 2, actions := actions }) (standard_closed fds₂)
      rw [bind_ok hopen, destroy_of_not_held hheld]
      refine .returned ⟨fun k => ?_, rfl, rfl, fun sig => ?_, rfl, rfl, rfl⟩
      · show fds₃.lookup k = Slots.lookup (some devNull :: _) k
        rw [lookup_standard]
        split
        case isTrue hk => exact hstandard.opened k (by omega)
        case isFalse hk => rw [hstandard.others k (by omega), hfds₂]
      · show (actions sig).handler = _
        rw [hhandlers sig]
        unfold delivered
        dsimp only
        split
        · rfl
        · rfl

end Committed

/-! ### The outcomes -/

theorem forkOr_some {α : Type} {errno : Int} {failed : Int → Sys Unit} {f : Unit → Sys α}
    {p q : Process} {e : Ended} (h : (failed errno).run p = .error e q) :
    (forkOr (some errno) failed >>= f).run p = .error e q :=
  bind_error h

/-- The second `fork` fails: all that was changed is put back, but for the session. -/
theorem undo_like {d : DaemonImpl} {sys : System} {caller : Process} {ptr : OldWorkingDir}
    {fds : Slots OpenFile} {dir : Dir} {old : UInt32}
    (hptr : GivesBack ptr fds dir (leftBehind sys dir caller))
    (hold : d.setUmask_ = true → old.toBitVec.setWidth 9 = caller.umask) (e : Ended) :
    ∃ q, (do
        d.undo sys old (caller.oldAction sys sighup SigAction.zero)
        unwind ptr e : Sys Unit).run (d.beforeSecondFork sys caller fds dir) = .error e q ∧
      q.Like { leftBehind sys dir caller with
        groupLeader := true, sessionLeader := true, controlTerminal := none } := by
  have humask : d.setUmask_ = false →
      (d.beforeSecondFork sys caller fds dir).umask = caller.umask := by
    intro hset
    rw [beforeSecondFork, hset]
    rfl
  obtain ⟨fds', hunwind, hfds'⟩ := unwind_givesBack (α := Unit)
    (p := { d.beforeSecondFork sys caller fds dir with
      umask := caller.umask, actions := caller.actions })
    hptr e
  have hundo := undo_ok d sys caller _ hold humask rfl
  exact ⟨_, (bind_ok hundo).trans hunwind, ⟨hfds', rfl, rfl, fun _ => rfl, rfl, rfl, rfl⟩⟩

/-- If the directory can be entered and the first `fork` succeeds, the first child comes to
the second one. -/
theorem daemonizeMe_forked {d : DaemonImpl} {sys : System} {caller : Process}
    {ptr : OldWorkingDir} {fds : Slots OpenFile} {dir : Dir}
    (henter : (d.enterWorkingDirectory sys
        (.ofDeleter sys.indeterminate restoreWorkingDir)).run caller =
      .ok ptr { caller with fds := fds, cwd := dir }) (hfork : sys.firstFork = none) :
    ∃ old, (d.setUmask_ = true → old.toBitVec.setWidth 9 = caller.umask) ∧
      (d.daemonizeMe sys).run caller = (do
        forkOr sys.secondFork fun errno => do
          d.undo sys old (caller.oldAction sys sighup SigAction.zero)
          unwind ptr (.syscallException "fork() failed" errno)
        d.commit sys ptr (caller.oldAction sys sighup SigAction.zero) : Sys Unit).run
          (d.beforeSecondFork sys caller fds dir) := by
  obtain ⟨old, humask, hold⟩ := changeUmask_undone d
    { caller with fds := fds, cwd := dir, groupLeader := true, sessionLeader := true,
                  controlTerminal := none }
  refine ⟨old, hold, ?_⟩
  rw [daemonizeMe, bind_ok henter, hfork, bind_ok (forkOr_none _ _)]
  refine (bind_ok (EStateM.run_modify _ _)).trans ?_
  refine (bind_ok humask).trans ?_
  rw [bind_ok (ignoreHangup_ok sys _)]
  rfl

/-- **`daemonize_me` works as if in one piece**, whatever fails. -/
theorem daemonizeMe_inOnePiece (d : DaemonImpl) (sys : System) (caller : Process)
    (hproc : ∀ fds, Lists (sys.procSelfFd fds) fds) :
    (Ending.ofResult ((d.daemonizeMe sys).run caller)).Like (d.inOnePiece sys caller) := by
  unfold inOnePiece
  cases hdir : d.requestedDir sys caller with
  | error errno =>
    obtain ⟨reason, fds, henter, hfds⟩ := enterWorkingDirectory_failed hdir
    rw [daemonizeMe, bind_error henter]
    exact .failed errno (like_of_lookup hfds)
  | ok dir =>
    obtain ⟨ptr, fds, henter, hsaves, hgives⟩ := enterWorkingDirectory_entered hdir
    cases hfork₁ : sys.firstFork with
    | some errno =>
      obtain ⟨fds', hunwind, hfds'⟩ := unwind_givesBack (α := Unit)
        (p := { caller with fds := fds, cwd := dir }) hgives
        (.syscallException "fork() failed" errno)
      rw [daemonizeMe, bind_ok henter, hfork₁, forkOr_some hunwind]
      exact .failed errno ⟨hfds', rfl, rfl, fun _ => rfl, rfl, rfl, rfl⟩
    | none =>
      obtain ⟨old, hold, hrun⟩ := daemonizeMe_forked henter hfork₁
      rw [hrun]
      cases hfork₂ : sys.secondFork with
      | some errno =>
        obtain ⟨q, hundo, hlike⟩ := undo_like hgives hold
          (.syscallException "fork() failed" errno)
        rw [forkOr_some hundo]
        exact .failed errno hlike
      | none =>
        rw [bind_ok (forkOr_none _ _)]
        exact commit_outcome d caller hsaves hproc

end DaemonImpl

/-! ## What a program does itself -/

/-- What a program does with its process. It goes on in the child of a `fork`, or in the
parent, for which nothing changes. -/
inductive OwnCall where
  | openFile (f : OpenFile) (possible : Bool)
  | openTerminal (path : Text) (possible free : Bool)
  | close (fd : Int)
  | dup (fd : Int)
  | chdir (sys : System) (path : Text)
  | umask (mask : UInt32)
  | sigaction (sys : System) (sig : Nat) (action : SigAction)
  | fork

def OwnCall.run : OwnCall → Process → Process
  | .openFile f possible, p => (p.openFile f possible).2
  | .openTerminal path possible free, p => p.openTerminal path possible free
  | .close fd, p => p.close fd
  | .dup fd, p => (p.dup fd).2
  | .chdir sys path, p => (p.chdir sys path).2
  | .umask mask, p => (p.setUmask mask).2
  | .sigaction sys sig action, p => p.sigaction sys sig action
  | .fork, p => p.fork

namespace Process

section Like

variable {p q : Process} (h : p.Like q)

include h

theorem Like.openFile (f : OpenFile) (possible : Bool) :
    (p.openFile f possible).2.Like (q.openFile f possible).2 := by
  cases possible with
  | false => exact h
  | true =>
    refine { h with fds := fun k => ?_ }
    show (p.fds.alloc f).lookup k = (q.fds.alloc f).lookup k
    rw [Slots.lookup_alloc, Slots.lookup_alloc, Slots.lowestFree_congr h.fds, h.fds]

theorem Like.openTerminal (path : Text) (possible free : Bool) :
    (p.openTerminal path possible free).Like (q.openTerminal path possible free) := by
  have hopen := h.openFile (.file path .rdwr) possible
  unfold Process.openTerminal
  rw [h.sessionLeader, h.controlTerminal]
  split
  · exact { hopen with controlTerminal := rfl }
  · exact hopen

theorem Like.close (fd : Int) : (p.close fd).Like (q.close fd) := by
  refine { h with fds := fun k => ?_ }
  cases fd with
  | ofNat n =>
    show (p.fds.clear n).lookup k = (q.fds.clear n).lookup k
    rw [Slots.lookup_clear, Slots.lookup_clear, h.fds]
  | negSucc n => exact h.fds k

theorem Like.dup (fd : Int) : (p.dup fd).2.Like (q.dup fd).2 := by
  have hfile : p.fileAt fd = q.fileAt fd := by
    cases fd with
    | ofNat n => exact h.fds n
    | negSucc n => rfl
  unfold Process.dup
  rw [hfile]
  cases q.fileAt fd with
  | none => exact h
  | some f => exact h.openFile f true

theorem Like.chdir (sys : System) (path : Text) :
    (p.chdir sys path).2.Like (q.chdir sys path).2 := by
  unfold Process.chdir
  rw [h.cwd]
  cases sys.resolve q.cwd path with
  | ok dir => exact { h with cwd := rfl }
  | error errno => exact h

theorem Like.sigaction (sys : System) (sig : Nat) (action : SigAction) :
    (p.sigaction sys sig action).Like (q.sigaction sys sig action) := by
  refine { h with handler := fun k => ?_ }
  rw [sigaction_actions, sigaction_actions]
  split
  · rfl
  · exact h.handler k

theorem Like.own (call : OwnCall) : (call.run p).Like (call.run q) := by
  cases call with
  | openFile f possible => exact h.openFile f possible
  | openTerminal path possible free => exact h.openTerminal path possible free
  | close fd => exact h.close fd
  | dup fd => exact h.dup fd
  | chdir sys path => exact h.chdir sys path
  | umask mask => exact { h with umask := rfl }
  | sigaction sys sig action => exact h.sigaction sys sig action
  | fork => exact { h with groupLeader := rfl, sessionLeader := rfl }

end Like

theorem Like.trans {p q r : Process} (h : p.Like q) (h' : q.Like r) : p.Like r where
  fds k := (h.fds k).trans (h'.fds k)
  cwd := h.cwd.trans h'.cwd
  umask := h.umask.trans h'.umask
  handler sig := (h.handler sig).trans (h'.handler sig)
  groupLeader := h.groupLeader.trans h'.groupLeader
  sessionLeader := h.sessionLeader.trans h'.sessionLeader
  controlTerminal := h.controlTerminal.trans h'.controlTerminal

end Process

namespace DaemonImpl

/-- What cannot be told apart before, cannot be told apart afterwards. -/
theorem inOnePiece_like (d : DaemonImpl) (sys : System) {p q : Process} (h : p.Like q) :
    (d.inOnePiece sys p).Like (d.inOnePiece sys q) := by
  have hdir : d.requestedDir sys p = d.requestedDir sys q := by
    rw [requestedDir, requestedDir, h.cwd]
  have hleft : ∀ dir, (leftBehind sys dir p).Like (leftBehind sys dir q) := by
    intro dir
    refine { h with cwd := ?_ }
    show (if sys.openDot then p.cwd else dir) = if sys.openDot then q.cwd else dir
    rw [h.cwd]
  unfold inOnePiece
  rw [hdir]
  cases d.requestedDir sys q with
  | error err => exact .failed err h
  | ok dir =>
    cases sys.firstFork with
    | some err => exact .failed err (hleft dir)
    | none =>
      cases sys.secondFork with
      | some err =>
        exact .failed err { hleft dir with
          groupLeader := rfl, sessionLeader := rfl, controlTerminal := rfl }
      | none =>
        dsimp only
        split
        · exact .ended
        · refine .returned ⟨fun k => ?_, rfl, ?_, fun sig => ?_, rfl, rfl, rfl⟩
          · show Slots.lookup (some devNull :: _) k = Slots.lookup (some devNull :: _) k
            rw [lookup_standard, lookup_standard, h.fds]
          · show (if d.setUmask_ then _ else p.umask) = if d.setUmask_ then _ else q.umask
            rw [h.umask]
          · unfold delivered
            dsimp only
            split
            · rfl
            · exact h.handler sig

end DaemonImpl

theorem Ending.Like.trans {o₁ o₂ o₃ : Ending} (h : o₁.Like o₂) (h' : o₂.Like o₃) :
    o₁.Like o₃ := by
  cases h with
  | returned h => cases h' with | returned h' => exact .returned (h.trans h')
  | failed err h => cases h' with | failed _ h' => exact .failed err (h.trans h')
  | ended => exact h'

/-! ## Whole programs -/

/-- A program that has a `Daemon`. -/
structure Program where
  daemon : DaemonImpl
  process : Process
  /-- the errors of the exceptions that it has caught -/
  caught : List Int

namespace Program

inductive Op where
  | closeFds
  | resetSignals
  | setUmask (mask : UInt32)
  | setWorkingDirectory (workingDirectory : Text)
  | daemonizeMe (sys : System)
  | own (call : OwnCall)

/-- The program goes on after a call of `daemonize_me`, unless its process has ended. -/
def after (a : Program) : Ending → Option Program
  | .returned q => some { a with process := q }
  | .failed err q => some { a with process := q, caught := a.caught ++ [err] }
  | .ended => none

/-- What all operations but `daemonize_me` do. -/
def plainStep (a : Program) : Op → Program
  | .closeFds => { a with daemon := a.daemon.closeFds }
  | .resetSignals => { a with daemon := a.daemon.resetSignals }
  | .setUmask mask => { a with daemon := a.daemon.setUmask mask }
  | .setWorkingDirectory dir => { a with daemon := a.daemon.setWorkingDirectory dir }
  | .daemonizeMe _ => a
  | .own call => { a with process := call.run a.process }

/-- One operation, on the code. -/
def step (a : Program) : Op → Option Program
  | .daemonizeMe sys => a.after (.ofResult ((a.daemon.daemonizeMe sys).run a.process))
  | op => some (a.plainStep op)

/-- One operation, with `daemonize_me` in one piece. -/
def stepInOnePiece (a : Program) : Op → Option Program
  | .daemonizeMe sys => a.after (a.daemon.inOnePiece sys a.process)
  | op => some (a.plainStep op)

/-- The same settings and errors, in processes that are alike. -/
structure Like (a b : Program) : Prop where
  daemon : a.daemon = b.daemon
  process : a.process.Like b.process
  caught : a.caught = b.caught

theorem Like.refl (a : Program) : a.Like a := ⟨rfl, .refl a.process, rfl⟩

/-- `/proc/self/fd` is what it should be whenever `daemonize_me` is called. -/
def Proc : Op → Prop
  | .daemonizeMe sys => ∀ fds, DaemonImpl.Lists (sys.procSelfFd fds) fds
  | _ => True

theorem after_like {a b : Program} {o o' : Ending} (h : a.Like b) (ho : o.Like o') :
    Option.Rel Like (a.after o) (b.after o') := by
  cases ho with
  | returned hq => exact .some { h with process := hq }
  | failed err hq =>
    exact .some ⟨h.daemon, hq, congrArg (· ++ [err]) h.caught⟩
  | ended => exact .none

theorem plainStep_like {a b : Program} (h : a.Like b) (op : Op) :
    (a.plainStep op).Like (b.plainStep op) := by
  cases op with
  | daemonizeMe sys => exact h
  | own call => exact { h with process := h.process.own call }
  | closeFds => exact { h with daemon := congrArg DaemonImpl.closeFds h.daemon }
  | resetSignals => exact { h with daemon := congrArg DaemonImpl.resetSignals h.daemon }
  | setUmask mask => exact { h with daemon := congrArg (DaemonImpl.setUmask · mask) h.daemon }
  | setWorkingDirectory dir =>
    exact { h with daemon := congrArg (DaemonImpl.setWorkingDirectory · dir) h.daemon }

theorem step_like {a b : Program} {op : Op} (hproc : Proc op) (h : a.Like b) :
    Option.Rel Like (a.step op) (b.stepInOnePiece op) := by
  cases op with
  | daemonizeMe sys =>
    have hone := a.daemon.daemonizeMe_inOnePiece sys a.process hproc
    have hsame := a.daemon.inOnePiece_like sys h.process
    refine after_like h (hone.trans ?_)
    rw [← h.daemon]
    exact hsame
  | _ => exact .some (plainStep_like h _)

/-- **`daemonize_me` is as good as one step**: whatever a program does and whatever fails,
either both runs come to their ends, in processes that are alike and with the same errors
caught, or both processes end on the way. -/
theorem program_in_one_piece (a : Program) {ops : List Op} (hproc : ∀ op ∈ ops, Proc op) :
    Option.Rel Like (run step a ops) (run stepInOnePiece a ops) := by
  refine run_agrees (fun b c op hop h => ?_) hproc (Like.refl a)
  exact step_like hop h

/-- A program of `nohupCaller`. -/
def nohupProgram : Program := ⟨.create 0, DaemonImpl.nohupCaller, []⟩

/-- The second `fork` fails at first. -/
def busyProc : System := { DaemonImpl.procSystem with secondFork := some 11 }

theorem proc_busyProc : Proc (.daemonizeMe busyProc) := fun _ => List.Perm.refl _

theorem proc_procSystem : Proc (.daemonizeMe DaemonImpl.procSystem) := fun _ => List.Perm.refl _

/-- The program tries again, with other settings. -/
def tryTwice : List Op :=
  [.setUmask 0o27, .daemonizeMe busyProc, .own (.openTerminal "/dev/tty2" true true),
    .setWorkingDirectory "/", .daemonizeMe DaemonImpl.procSystem]

theorem proc_tryTwice : ∀ op ∈ tryTwice, Proc op := by
  simp only [tryTwice, List.forall_mem_cons]
  exact ⟨trivial, proc_busyProc, trivial, trivial, proc_procSystem, List.forall_mem_nil _⟩

theorem program_in_one_piece_tryTwice :
    Option.Rel Like (run step nohupProgram tryTwice) (run stepInOnePiece nohupProgram tryTwice) :=
  program_in_one_piece nohupProgram proc_tryTwice

/-! ## Once a daemon -/

/-- Such a process cannot acquire a control terminal. -/
def Detached (a : Program) : Prop :=
  a.process.sessionLeader = false ∧ a.process.controlTerminal = none

theorem Like.detached {a b : Program} (h : a.Like b) : a.Detached ↔ b.Detached := by
  rw [Detached, Detached, h.process.sessionLeader, h.process.controlTerminal]

/-- A step of the code is one in one piece, on the same program. -/
theorem exists_inOnePiece {a a' : Program} {op : Op} (hproc : Proc op)
    (hstep : a.step op = some a') :
    ∃ b, a.stepInOnePiece op = some b ∧ a'.Like b := by
  have hone := step_like hproc (Like.refl a)
  rw [hstep] at hone
  cases hb : a.stepInOnePiece op with
  | none =>
    rw [hb] at hone
    cases hone
  | some b =>
    rw [hb] at hone
    cases hone with
    | some h => exact ⟨b, rfl, h⟩

/-- A call of `daemonize_me` that the process survives delivers the daemon, or fails and is
noted. -/
theorem daemonizeMe_cases {a b : Program} {sys : System}
    (hstep : a.stepInOnePiece (.daemonizeMe sys) = some b) :
    (∃ dir, a.daemon.requestedDir sys a.process = .ok dir ∧
      b = { a with process := a.daemon.delivered sys dir a.process }) ∨
    (∃ err q, b = { a with process := q, caught := a.caught ++ [err] } ∧
      DaemonImpl.Unharmed sys a.process q) := by
  change a.after (a.daemon.inOnePiece sys a.process) = some b at hstep
  rcases a.daemon.inOnePiece_cases sys a.process with
    ⟨dir, hdir, hreturned⟩ | ⟨err, q, hfailed, hq⟩ | hended
  · rw [hreturned] at hstep
    exact .inl ⟨dir, hdir, (Option.some.inj hstep).symm⟩
  · rw [hfailed] at hstep
    exact .inr ⟨err, q, (Option.some.inj hstep).symm, hq⟩
  · rw [hended] at hstep
    cases hstep

/-- The call of `daemonize_me` that leads from `a` to `a'` returns. -/
def Returns (sys : System) (a a' : Program) : Prop :=
  a.step (.daemonizeMe sys) = some a' ∧ a'.caught = a.caught

/-- It returns in the daemon that was asked for. -/
theorem Returns.delivered {sys : System} {a a' : Program} (h : Returns sys a a')
    (hproc : Proc (.daemonizeMe sys)) :
    ∃ dir, a.daemon.requestedDir sys a.process = .ok dir ∧ a'.daemon = a.daemon ∧
      a'.process.Like (a.daemon.delivered sys dir a.process) := by
  obtain ⟨b, hb, hlike⟩ := exists_inOnePiece hproc h.1
  rcases daemonizeMe_cases hb with ⟨dir, hdir, rfl⟩ | ⟨err, q, rfl, -⟩
  · exact ⟨dir, hdir, hlike.daemon, hlike.process⟩
  · have hcaught : a.caught ++ [err] = a.caught := hlike.caught.symm.trans h.2
    simp at hcaught

theorem detached_own {a : Program} (h : a.Detached) (call : OwnCall) :
    (call.run a.process).sessionLeader = false ∧ (call.run a.process).controlTerminal = none := by
  obtain ⟨hleader, hterminal⟩ := h
  cases call with
  | openTerminal path possible free =>
    have hopen := a.process.openFile_eq (.file path .rdwr) possible
    simp only [OwnCall.run, openTerminal, hleader, Bool.and_false, Bool.false_and,
      Bool.false_eq_true, if_false]
    rw [hopen]
    exact ⟨hleader, hterminal⟩
  | openFile f possible =>
    rw [OwnCall.run, openFile_eq]
    exact ⟨hleader, hterminal⟩
  | dup fd =>
    rw [OwnCall.run, Process.dup]
    split
    · exact ⟨hleader, hterminal⟩
    · exact ⟨hleader, hterminal⟩
  | chdir sys path =>
    rw [OwnCall.run, Process.chdir]
    split
    · exact ⟨hleader, hterminal⟩
    · exact ⟨hleader, hterminal⟩
  | fork => exact ⟨rfl, hterminal⟩
  | _ => exact ⟨hleader, hterminal⟩

/-- Only a second `fork` that fails leaves a session leader. -/
theorem detached_inOnePiece {a b : Program} {op : Op} (h : a.Detached)
    (hfork : ∀ sys, op = .daemonizeMe sys → sys.secondFork = none)
    (hstep : a.stepInOnePiece op = some b) : b.Detached := by
  cases op with
  | daemonizeMe sys =>
    rcases daemonizeMe_cases hstep with ⟨dir, -, rfl⟩ | ⟨err, q, rfl, hq⟩
    · exact ⟨rfl, rfl⟩
    · obtain ⟨hleader, hterminal⟩ := hq.session (hfork sys rfl)
      exact ⟨hleader.trans h.1, hterminal.trans h.2⟩
  | own call =>
    obtain rfl := Option.some.inj hstep
    exact detached_own h call
  | _ =>
    obtain rfl := Option.some.inj hstep
    exact h

/-- **A daemon does not get a control terminal again**: once a call of `daemonize_me` has
returned, the process is no session leader and has no control terminal, whatever it opens and
whatever else it does, as long as no later call fails in its second `fork`. -/
theorem never_terminal {sys : System} {a a' : Program} {ops : List Op} (hret : Returns sys a a')
    (hproc : ∀ op ∈ .daemonizeMe sys :: ops, Proc op)
    (hforks : ∀ sys', .daemonizeMe sys' ∈ ops → sys'.secondFork = none) :
    Always step Detached a' ops := by
  obtain ⟨hsys, hops⟩ := List.forall_mem_cons.mp hproc
  obtain ⟨dir, -, -, hlike⟩ := hret.delivered hsys
  have hstart : a'.Detached := ⟨hlike.sessionLeader, hlike.controlTerminal⟩
  intro pre hpre b hrun
  have hleads : Leads step (fun op => op ∈ ops) a' b :=
    ⟨pre, fun op hop => hpre.subset hop, hrun⟩
  refine hleads.invariant (fun c op c' hop hc hstep => ?_) hstart
  obtain ⟨b', hb', hlike'⟩ := exists_inOnePiece (hops op hop) hstep
  refine hlike'.detached.mpr (detached_inOnePiece hc (fun sys' heq => ?_) hb')
  exact hforks sys' (heq ▸ hop)

theorem nohupProgram_isSome :
    (nohupProgram.step (.daemonizeMe DaemonImpl.procSystem)).isSome = true := by decide

/-- The daemon that `nohupProgram` becomes. -/
def nohupDaemon : Program := Option.get _ nohupProgram_isSome

theorem nohupProgram_returns : Returns DaemonImpl.procSystem nohupProgram nohupDaemon :=
  ⟨(Option.some_get nohupProgram_isSome).symm, rfl⟩

/-- It opens a terminal, also in a child and after another call. -/
def terminals : List Op :=
  [.own (.openTerminal "/dev/tty2" true true), .own .fork, .daemonizeMe DaemonImpl.procSystem,
    .own (.openTerminal "/dev/tty3" true true)]

theorem never_terminal_terminals : Always step Detached nohupDaemon terminals := by
  refine never_terminal nohupProgram_returns ?_ ?_
  · simp only [terminals, List.forall_mem_cons]
    exact ⟨proc_procSystem, trivial, trivial, proc_procSystem, trivial,
      List.forall_mem_nil _⟩
  · intro sys' hmem
    obtain rfl : sys' = DaemonImpl.procSystem := by simpa [terminals] using hmem
    rfl

/-! ## More than one call -/

/-- What the process keeps while the program only sets up its daemon and calls
`daemonize_me`. What cannot be reset is `reserved`. -/
structure Keeps (sys : System) (a b : Program) : Prop where
  others : ∀ k, 2 < k → b.process.fds.lookup k = a.process.fds.lookup k
  umask : b.daemon.setUmask_ = false → b.process.umask = a.process.umask
  handler : ∀ sig, (b.daemon.resetSignals_ && sys.resettable sig) = false →
    (b.process.actions sig).handler = (a.process.actions sig).handler

theorem Keeps.refl (sys : System) (a : Program) : Keeps sys a a :=
  ⟨fun _ _ => rfl, fun _ => rfl, fun _ _ => rfl⟩

theorem Keeps.like {sys : System} {a b c : Program} (h : Keeps sys a b) (hlike : c.Like b) :
    Keeps sys a c where
  others k hk := (hlike.process.fds k).trans (h.others k hk)
  umask hset := hlike.process.umask.trans (h.umask (hlike.daemon ▸ hset))
  handler sig hreset := (hlike.process.handler sig).trans (h.handler sig (hlike.daemon ▸ hreset))

theorem Keeps.delivered {sys sys' : System} {a b : Program} (h : Keeps sys a b)
    (hreserved : sys'.reserved = sys.reserved) (dir : Dir) :
    Keeps sys a { b with process := b.daemon.delivered sys' dir b.process } where
  others k hk := by
    show Slots.lookup (some _ :: _) k = _
    rw [DaemonImpl.lookup_standard, if_neg (by omega), h.others k hk]
  umask hset := by
    change b.daemon.setUmask_ = false at hset
    show (if b.daemon.setUmask_ then _ else b.process.umask) = _
    rw [hset, ← h.umask hset]
    rfl
  handler sig hreset := by
    change (b.daemon.resetSignals_ && sys.resettable sig) = false at hreset
    have hsame : sys'.resettable sig = sys.resettable sig := by
      rw [System.resettable, System.resettable, hreserved]
    rw [DaemonImpl.delivered]
    dsimp only
    rw [hsame, hreset, ← h.handler sig hreset]
    rfl

/-- What one operation keeps. -/
theorem Keeps.step {sys : System} {a b b' : Program} {op : Op} (h : Keeps sys a b)
    (hproc : Proc op) (hown : ∀ call, op ≠ .own call)
    (hreserved : ∀ sys', op = .daemonizeMe sys' → sys'.reserved = sys.reserved)
    (hstep : b.step op = some b') : Keeps sys a b' := by
  obtain ⟨c, hc, hlike⟩ := exists_inOnePiece hproc hstep
  refine Keeps.like ?_ hlike
  cases op with
  | daemonizeMe sys' =>
    rcases daemonizeMe_cases hc with ⟨dir, -, rfl⟩ | ⟨err, q, rfl, hq⟩
    · exact h.delivered (hreserved sys' rfl) dir
    · constructor
      · intro k hk
        rw [← h.others k hk]
        exact congrArg (Slots.lookup · k) hq.fds
      · exact fun hset => hq.umask.trans (h.umask hset)
      · intro sig hreset
        rw [← h.handler sig hreset]
        exact congrArg (fun actions => (actions sig).handler) hq.actions
  | own call => exact absurd rfl (hown call)
  | closeFds =>
    obtain rfl := Option.some.inj hc
    exact ⟨h.others, h.umask, h.handler⟩
  | resetSignals =>
    obtain rfl := Option.some.inj hc
    refine ⟨h.others, h.umask, fun sig hreset => h.handler sig ?_⟩
    change (true && sys.resettable sig) = false at hreset
    rw [Bool.true_and] at hreset
    rw [hreset, Bool.and_false]
  | setUmask mask =>
    obtain rfl := Option.some.inj hc
    exact ⟨h.others, nofun, h.handler⟩
  | setWorkingDirectory dir =>
    obtain rfl := Option.some.inj hc
    exact ⟨h.others, h.umask, h.handler⟩

/-- **Calling `daemonize_me` more than once is safe**: whatever settings were made and
whatever calls returned or failed before, a call that returns makes of the process what it
would have made of it in the beginning, but for the working directory, which is the one that
is asked for where the process is by now. -/
theorem more_than_once {sys : System} {a b a' : Program} {ops : List Op}
    (hrun : run step a ops = some b) (hret : Returns sys b a')
    (hproc : ∀ op ∈ .daemonizeMe sys :: ops, Proc op)
    (hown : ∀ call, .own call ∉ ops)
    (hreserved : ∀ sys', .daemonizeMe sys' ∈ ops → sys'.reserved = sys.reserved) :
    ∃ dir, b.daemon.requestedDir sys b.process = .ok dir ∧
      a'.process.Like (b.daemon.delivered sys dir a.process) := by
  obtain ⟨hsys, hops⟩ := List.forall_mem_cons.mp hproc
  have hkeeps : Keeps sys a b := by
    have hleads : Leads step (fun op => op ∈ ops) a b := ⟨ops, fun _ hop => hop, hrun⟩
    refine hleads.invariant (fun c op c' hop hc hstep => ?_) (Keeps.refl sys a)
    exact hc.step (hops op hop) (fun call heq => hown call (heq ▸ hop))
      (fun sys' heq => hreserved sys' (heq ▸ hop)) hstep
  obtain ⟨dir, hdir, -, hlike⟩ := hret.delivered hsys
  refine ⟨dir, hdir, hlike.trans ⟨fun k => ?_, rfl, ?_, fun sig => ?_, rfl, rfl, rfl⟩⟩
  · show Slots.lookup (some _ :: _) k = Slots.lookup (some _ :: _) k
    rw [DaemonImpl.lookup_standard, DaemonImpl.lookup_standard]
    split
    case isTrue => rfl
    case isFalse hk => exact hkeeps.others k (by omega)
  · show (if b.daemon.setUmask_ then _ else b.process.umask) =
      if b.daemon.setUmask_ then _ else a.process.umask
    cases hset : b.daemon.setUmask_ with
    | true => rfl
    | false => exact hkeeps.umask hset
  · rw [DaemonImpl.delivered, DaemonImpl.delivered]
    dsimp only
    cases hreset : b.daemon.resetSignals_ && sys.resettable sig with
    | true => rfl
    | false => exact hkeeps.handler sig hreset

/-- What the program does before the call that returns. -/
def setups : List Op :=
  [.setUmask 0o27, .daemonizeMe busyProc, .resetSignals, .setWorkingDirectory "/"]

theorem setups_isSome : (run step nohupProgram setups).isSome = true := by decide

/-- When it calls again. -/
def secondTry : Program := Option.get _ setups_isSome

theorem secondTry_isSome :
    (secondTry.step (.daemonizeMe DaemonImpl.procSystem)).isSome = true := by decide

theorem more_than_once_setups :
    ∃ dir, secondTry.daemon.requestedDir DaemonImpl.procSystem secondTry.process = .ok dir ∧
      (Option.get _ secondTry_isSome).process.Like
        (secondTry.daemon.delivered DaemonImpl.procSystem dir nohupProgram.process) := by
  refine more_than_once (Option.some_get setups_isSome).symm
    ⟨(Option.some_get secondTry_isSome).symm, rfl⟩ ?_ ?_ ?_
  · simp only [setups, List.forall_mem_cons]
    exact ⟨proc_procSystem, trivial, proc_busyProc, trivial, trivial, List.forall_mem_nil _⟩
  · intro call hmem
    simp [setups] at hmem
  · intro sys' hmem
    obtain rfl : sys' = busyProc := by simpa [setups] using hmem
    rfl

end Program

end LomiriApi
