import LomiriApi.Daemon.Delivery

/-!
# The strong exception guarantee of `daemonize_me`

- `Restored caller q`: the process `q` has what the caller had.
- `GivesBack`: what destroying `old_working_dir` is for.
- `Quiet x`: no `SyscallException` leaves `x`; so it is with all that follows the
  second `fork`.
- `daemonizeMe_restores`: if `open(".")` succeeds, whichever of `chdir` and the two
  calls of `fork` fails, `SyscallException` leaves a process that is as it was.
-/

namespace LomiriApi

open Lib Process

namespace DaemonImpl

/-- `q` has the working directory, the umask, the signal actions and the descriptors of
the caller. -/
structure Restored (caller q : Process) : Prop where
  cwd : q.cwd = caller.cwd
  umask : q.umask = caller.umask
  actions : q.actions = caller.actions
  fds : ∀ k, q.fds.lookup k = caller.fds.lookup k

/-- One of the calls that `daemonize_me` checks is going to fail. -/
def CallFails (d : DaemonImpl) (sys : System) (caller : Process) : Prop :=
  (∃ errno, d.requestedDir sys caller = .error errno) ∨
    sys.firstFork ≠ none ∨ sys.secondFork ≠ none

/-! ## What throws no `SyscallException` -/

/-- No `SyscallException` leaves `x`. -/
def Quiet {α : Type} (x : Sys α) : Prop :=
  ∀ p reason err q, x.run p ≠ .error (.syscallException reason err) q

/-- Quiet steps compose, so the functions of the daemon are gone through statement by
statement. -/
theorem Quiet.bind {α β : Type} {x : Sys α} {f : α → Sys β} (hx : Quiet x)
    (hf : ∀ a, Quiet (f a)) : Quiet (x >>= f) := by
  intro p reason err q h
  rw [EStateM.run_bind] at h
  cases hr : x.run p with
  | ok a p' =>
    rw [hr] at h
    exact hf a p' reason err q h
  | error e p' =>
    rw [hr] at h
    obtain ⟨rfl, rfl⟩ := EStateM.Result.error.inj h
    exact hx p reason err p' hr

theorem quiet_pure {α : Type} (a : α) : Quiet (pure a : Sys α) := nofun

/-- A system call that always succeeds throws nothing, whatever it does to the process. -/
theorem quiet_modifyGet {α : Type} (f : Process → α × Process) :
    Quiet (modifyGet f : Sys α) := nofun

theorem quiet_get : Quiet (get : Sys Process) := nofun

theorem quiet_modify (f : Process → Process) : Quiet (modify f : Sys PUnit) := nofun

/-- The end of the process is no exception: there is no caller left to see it. -/
theorem quiet_aborted {α : Type} : Quiet (throw .aborted : Sys α) := nofun

/-- A choice between two quiet continuations is quiet, which settles the `if`s on the three
switches of the daemon. -/
theorem Quiet.ite {α : Type} {c : Prop} [Decidable c] {x y : Sys α} (hx : Quiet x)
    (hy : Quiet y) : Quiet (if c then x else y) := by
  split
  · exact hx
  · exact hy

/-- A failed assertion ends the process and throws nothing. -/
theorem quiet_assert (b : Bool) : Quiet (assert_ b) := by
  unfold assert_
  exact Quiet.ite (quiet_pure ()) quiet_aborted

/-- The destructor of the saved working directory throws nothing; its deleter looks at no
result. -/
theorem quiet_destroy (ptr : OldWorkingDir) : Quiet (destroy ptr) := by
  unfold destroy callDeleter
  split
  · exact quiet_pure ()
  · exact quiet_modify _

/-- What the pointer throws here is a `LogicException`, which is not what the guarantee is
about. -/
theorem quiet_orUnwind {α : Type} (ptr : OldWorkingDir) (r : Except LogicError α) :
    Quiet (orUnwind ptr r) := by
  cases r with
  | ok a => exact quiet_pure a
  | error e => exact (quiet_destroy ptr).bind fun _ => nofun

/-- Giving up the saved working directory, after the second `fork`, throws no
`SyscallException`. -/
theorem quiet_dropWorkingDir (ptr : OldWorkingDir) : Quiet (dropWorkingDir ptr) := by
  unfold dropWorkingDir
  refine Quiet.ite ((quiet_orUnwind _ _).bind fun fd => ?_) (quiet_pure _)
  refine (quiet_modify _).bind fun _ => (quiet_orUnwind _ _).bind fun _ => quiet_pure _

theorem quiet_changeUmask (d : DaemonImpl) : Quiet d.changeUmask := by
  unfold changeUmask
  exact Quiet.ite (quiet_modifyGet _) (quiet_pure _)

/-- No result of `sigaction` is looked at here, so no failure is reported. -/
theorem quiet_settleSignals (d : DaemonImpl) (sys : System) (oldAction : SigAction) :
    Quiet (d.settleSignals sys oldAction) := by
  have hreset : Quiet (if d.resetSignals_ then modify (resetAll sys) else pure ()) :=
    Quiet.ite (quiet_modify _) (quiet_pure _)
  unfold settleSignals
  exact Quiet.ite ((quiet_modify _).bind fun _ => hreset) hreset

/-- Reading the names under `/proc/self/fd` can only end the process, by a name that is no
number. -/
theorem quiet_descriptors (names : List Text) : Quiet (descriptors names) := by
  induction names with
  | nil => exact quiet_pure []
  | cons name names ih =>
    unfold descriptors
    split
    · exact quiet_aborted
    · exact ih.bind fun rest => quiet_pure _

theorem quiet_closeAll (fds : List Int) :
    Quiet (fds.forM fun fd => modify (close fd) : Sys PUnit) := by
  induction fds with
  | nil => exact quiet_pure _
  | cons fd fds ih => exact (quiet_modify _).bind fun _ => ih

/-- `close_open_files` is `noexcept`: it returns, or it ends the process. -/
theorem quiet_closeOpenFiles (d : DaemonImpl) (sys : System) : Quiet (d.closeOpenFiles sys) := by
  unfold closeOpenFiles
  refine (quiet_modify _).bind fun _ => (quiet_modify _).bind fun _ =>
    (quiet_modify _).bind fun _ => ?_
  refine Quiet.ite ((quiet_modifyGet _).bind fun dirp => ?_) (quiet_pure _)
  refine Quiet.ite (quiet_pure _) (Quiet.bind quiet_get fun p => ?_)
  exact (quiet_descriptors _).bind fun fds => (quiet_closeAll fds).bind fun _ => quiet_destroy _

/-- Opening `/dev/null` for the three standard descriptors is checked by assertions
only. -/
theorem quiet_openStandard (sys : System) : Quiet (openStandard sys) := by
  unfold openStandard
  refine (quiet_modifyGet _).bind fun fd => (quiet_assert _).bind fun _ => ?_
  refine (quiet_modifyGet _).bind fun fd => (quiet_assert _).bind fun _ => ?_
  exact (quiet_modifyGet _).bind fun fd => quiet_assert _

/-! ## What is undone -/

/-- Destroying `ptr` in a process with the table `now` and the working directory `dir`
gives back the caller's. -/
def GivesBack (ptr : OldWorkingDir) (now : Slots OpenFile) (dir : Dir) (caller : Process) :
    Prop :=
  ∀ p : Process, p.fds = now → p.cwd = dir →
    ∃ fds, (destroy ptr).run p = .ok () { p with fds := fds, cwd := caller.cwd } ∧
      ∀ k, fds.lookup k = caller.fds.lookup k

/-- With no directory held there is nothing to give back: the caller's descriptors and
directory are still as they were. -/
theorem givesBack_not_held (caller : Process) {ptr : OldWorkingDir} (h : ptr.held = none) :
    GivesBack ptr caller.fds caller.cwd caller := by
  rintro p hfds hcwd
  refine ⟨p.fds, ?_, fun k => by rw [hfds]⟩
  rw [destroy_of_not_held h, ← hcwd]

/-- The descriptor that was opened leads back to the old working directory, and closing
it restores the table. -/
theorem givesBack_opened (caller : Process) (dir : Dir) :
    GivesBack ⟨caller.fds.lowestFree, restoreWorkingDir, true⟩
      (caller.fds.alloc (.directory caller.cwd)) dir caller := by
  rintro p hfds -
  have hfile : p.fileAt caller.fds.lowestFree = some (.directory caller.cwd) := by
    show p.fds.lookup _ = _
    rw [hfds, Slots.lookup_alloc, if_pos rfl]
  have hfchdir : p.fchdir caller.fds.lowestFree = { p with cwd := caller.cwd } := by
    rw [fchdir, hfile]
  refine ⟨p.fds.clear caller.fds.lowestFree, ?_, fun k => ?_⟩
  · show EStateM.Result.ok () ((p.fchdir caller.fds.lowestFree).close caller.fds.lowestFree) = _
    rw [hfchdir]
    rfl
  · rw [hfds, Slots.lookup_clear_alloc]

/-- Leaving the scope of `ptr` by a throw. -/
theorem unwind_givesBack {α : Type} {ptr : OldWorkingDir} {p caller : Process}
    (h : GivesBack ptr p.fds p.cwd caller) (e : Ended) :
    ∃ fds, (unwind ptr e : Sys α).run p =
        .error e { p with fds := fds, cwd := caller.cwd } ∧
      ∀ k, fds.lookup k = caller.fds.lookup k := by
  obtain ⟨fds, hrun, hfds⟩ := h p rfl rfl
  refine ⟨fds, ?_, hfds⟩
  rw [unwind, bind_ok hrun]
  rfl

/-- Where `chdir` succeeds, the old working directory is saved; where it fails, it is
restored. -/
theorem enterWorkingDirectory_cases {d : DaemonImpl} {sys : System} {p : Process}
    (hdot : sys.openDot = true) :
    (∃ ptr fds dir, d.requestedDir sys p = .ok dir ∧
      (d.enterWorkingDirectory sys (.ofDeleter sys.indeterminate restoreWorkingDir)).run p =
        .ok ptr { p with fds := fds, cwd := dir } ∧ GivesBack ptr fds dir p) ∨
    (∃ reason errno fds, d.requestedDir sys p = .error errno ∧
      (d.enterWorkingDirectory sys (.ofDeleter sys.indeterminate restoreWorkingDir)).run p =
        .error (.syscallException reason errno) { p with fds := fds } ∧
      ∀ k, fds.lookup k = p.fds.lookup k) := by
  unfold requestedDir enterWorkingDirectory
  by_cases hempty : d.workingDirectory_.isEmpty = true
  · rw [if_pos hempty, if_pos hempty]
    exact .inl ⟨_, p.fds, p.cwd, rfl, rfl, givesBack_not_held p rfl⟩
  · rw [if_neg hempty, if_neg hempty]
    let fds := p.fds.alloc (.directory p.cwd)
    have hopen : (modifyGet fun p : Process => p.openFile (.directory p.cwd) sys.openDot :
        Sys Int).run p = .ok p.fds.lowestFree { p with fds := fds } := by
      rw [EStateM.run_modifyGet, openFile, if_pos hdot]
    rw [bind_ok hopen]
    cases hdir : sys.resolve p.cwd (cStr d.workingDirectory_) with
    | ok dir =>
      have hchdir : (modifyGet (Process.chdir sys (cStr d.workingDirectory_)) :
          Sys (Option Int)).run { p with fds := fds } =
            .ok none { p with fds := fds, cwd := dir } := by
        rw [EStateM.run_modifyGet, Process.chdir, hdir]
      refine .inl ⟨_, fds, dir, rfl, ?_, givesBack_opened p dir⟩
      refine (bind_ok (x := callDeleter none) rfl).trans ?_
      rw [bind_ok hchdir]
      rfl
    | error errno =>
      have hchdir : (modifyGet (Process.chdir sys (cStr d.workingDirectory_)) :
          Sys (Option Int)).run { p with fds := fds } =
            .ok (some errno) { p with fds := fds } := by
        rw [EStateM.run_modifyGet, Process.chdir, hdir]
      obtain ⟨fds', hrun, hfds'⟩ := unwind_givesBack (α := OldWorkingDir)
        (p := { p with fds := fds }) (givesBack_opened p p.cwd)
        (.syscallException ("chdir(\"" ++ cStr d.workingDirectory_ ++ "\") failed") errno)
      refine .inr ⟨"chdir(\"" ++ cStr d.workingDirectory_ ++ "\") failed", errno, fds', rfl,
        ?_, hfds'⟩
      refine (bind_ok (x := callDeleter none) rfl).trans ?_
      rw [bind_ok hchdir]
      exact hrun

/-- The umask that `changeUmask` returns is the one that was changed, if any was. -/
theorem changeUmask_undone (d : DaemonImpl) (p : Process) :
    ∃ old, d.changeUmask.run p = .ok old { p with
        umask := if d.setUmask_ then d.umask_.toBitVec.setWidth 9 else p.umask } ∧
      (d.setUmask_ = true → old.toBitVec.setWidth 9 = p.umask) := by
  unfold changeUmask
  cases d.setUmask_ with
  | true =>
    refine ⟨_, rfl, fun _ => ?_⟩
    exact BitVec.setWidth_setWidth_of_le p.umask (by omega)
  | false => exact ⟨0, rfl, nofun⟩

/-- `undo` restores the umask, and the whole action of `SIGHUP`. -/
theorem undo_ok (d : DaemonImpl) (sys : System) (caller p : Process) {old : UInt32}
    (hold : d.setUmask_ = true → old.toBitVec.setWidth 9 = caller.umask)
    (humask : d.setUmask_ = false → p.umask = caller.umask)
    (hactions : p.actions = (caller.sigaction sys sighup ignoreAction).actions) :
    (d.undo sys old (caller.oldAction sys sighup SigAction.zero)).run p =
      .ok () { p with umask := caller.umask, actions := caller.actions } := by
  have hrestored : ∀ p' : Process, p'.actions = p.actions →
      p'.sigaction sys sighup (caller.oldAction sys sighup SigAction.zero) =
        { p' with actions := caller.actions } := by
    intro p' hp'
    unfold sigaction oldAction
    by_cases hr : sys.resettable sighup = true
    · rw [if_pos hr, if_pos hr, hp', hactions, sigaction, if_pos hr, Function.update_idem,
        Function.update_eq_self]
    · rw [if_neg hr, hp', hactions, sigaction, if_neg hr]
  unfold undo
  cases hset : d.setUmask_ with
  | true =>
    have hmask : (p.setUmask old).2 = { p with umask := caller.umask } := by
      show { p with umask := old.toBitVec.setWidth 9 } = _
      rw [hold hset]
    show EStateM.Result.ok () ((p.setUmask old).2.sigaction sys sighup _) = _
    rw [hmask, hrestored { p with umask := caller.umask } rfl]
  | false =>
    show EStateM.Result.ok () (p.sigaction sys sighup _) = _
    rw [hrestored p rfl, ← humask hset]

/-! ## The three points of failure -/

/-- What the first child is like when it calls `fork`. -/
def beforeSecondFork (d : DaemonImpl) (sys : System) (caller : Process) (fds : Slots OpenFile)
    (dir : Dir) : Process where
  fds := fds
  cwd := dir
  umask := if d.setUmask_ then d.umask_.toBitVec.setWidth 9 else caller.umask
  actions := (caller.sigaction sys sighup ignoreAction).actions
  groupLeader := true
  sessionLeader := true
  controlTerminal := none

/-- The second `fork` fails. -/
theorem undo_unwind {d : DaemonImpl} (sys : System) {caller : Process} {ptr : OldWorkingDir}
    {fds : Slots OpenFile} {dir : Dir} {old : UInt32} (hptr : GivesBack ptr fds dir caller)
    (hold : d.setUmask_ = true → old.toBitVec.setWidth 9 = caller.umask) (e : Ended) :
    ∃ q, (do
        d.undo sys old (caller.oldAction sys sighup SigAction.zero)
        unwind ptr e : Sys Unit).run (d.beforeSecondFork sys caller fds dir) = .error e q ∧
      Restored caller q := by
  have humask : d.setUmask_ = false →
      (d.beforeSecondFork sys caller fds dir).umask = caller.umask := by
    intro hset
    rw [beforeSecondFork, hset]
    rfl
  let p : Process :=
    { d.beforeSecondFork sys caller fds dir with
      umask := caller.umask, actions := caller.actions }
  obtain ⟨fds', hunwind, hfds'⟩ := unwind_givesBack (α := Unit) (p := p) hptr e
  refine ⟨{ p with fds := fds', cwd := caller.cwd }, ?_, ⟨rfl, rfl, rfl, hfds'⟩⟩
  rw [bind_ok (undo_ok d sys caller _ hold humask rfl)]
  exact hunwind

/-- Once `enterWorkingDirectory` has returned, and if both calls of `fork` succeed. -/
theorem quiet_afterForks (d : DaemonImpl) (sys : System) (ptr : OldWorkingDir)
    (failed₁ : Int → Sys Unit) (failed₂ : UInt32 → SigAction → Int → Sys Unit) :
    Quiet (do
      forkOr none failed₁
      modify setsid
      let oldUmask ← d.changeUmask
      let oldAction ← ignoreHangup sys
      forkOr none (failed₂ oldUmask oldAction)
      let oldWorkingDir ← dropWorkingDir ptr
      d.settleSignals sys oldAction
      d.closeOpenFiles sys
      openStandard sys
      destroy oldWorkingDir) := by
  refine (quiet_modify fork).bind fun _ => (quiet_modify setsid).bind fun _ => ?_
  refine (quiet_changeUmask d).bind fun oldUmask => ?_
  refine Quiet.bind (quiet_modifyGet _) fun oldAction => ?_
  refine (quiet_modify fork).bind fun _ => (quiet_dropWorkingDir ptr).bind fun ptr' => ?_
  refine (quiet_settleSignals d sys oldAction).bind fun _ => ?_
  refine (quiet_closeOpenFiles d sys).bind fun _ => ?_
  exact (quiet_openStandard sys).bind fun _ => quiet_destroy ptr'

/-- Either one of the calls fails, and the process is as it was; or none does, and no
`SyscallException` leaves `daemonize_me`. -/
theorem daemonizeMe_cases (d : DaemonImpl) (sys : System) (caller : Process)
    (hdot : sys.openDot = true) :
    (∃ reason err q, (d.daemonizeMe sys).run caller = .error (.syscallException reason err) q ∧
      Restored caller q) ∨
    (¬ d.CallFails sys caller ∧
      ∀ reason err q,
        (d.daemonizeMe sys).run caller ≠ .error (.syscallException reason err) q) := by
  unfold daemonizeMe
  rcases enterWorkingDirectory_cases (d := d) (p := caller) hdot with
    ⟨ptr, fds, dir, hdir, henter, hptr⟩ | ⟨reason, errno, fds, -, henter, hfds⟩
  · rw [bind_ok henter]
    cases hfork₁ : sys.firstFork with
    | some errno =>
      obtain ⟨fds', hunwind, hfds'⟩ := unwind_givesBack (α := Unit)
        (p := { caller with fds := fds, cwd := dir }) hptr
        (.syscallException "fork() failed" errno)
      exact .inl ⟨"fork() failed", errno, _, bind_error hunwind, ⟨rfl, rfl, rfl, hfds'⟩⟩
    | none =>
      cases hfork₂ : sys.secondFork with
      | some errno =>
        obtain ⟨old, humask, hold⟩ := changeUmask_undone d
          { caller with fds := fds, cwd := dir, groupLeader := true, sessionLeader := true,
                        controlTerminal := none }
        obtain ⟨q, hundo, hq⟩ := undo_unwind sys hptr hold
          (.syscallException "fork() failed" errno)
        refine .inl ⟨"fork() failed", errno, q, ?_, hq⟩
        rw [bind_ok (forkOr_none _ _)]
        refine (bind_ok (EStateM.run_modify _ _)).trans ?_
        refine (bind_ok humask).trans ?_
        rw [bind_ok (ignoreHangup_ok sys _)]
        exact bind_error hundo
      | none =>
        refine .inr ⟨?_, quiet_afterForks d sys ptr _ _ _⟩
        rintro (⟨errno, hfail⟩ | hfail | hfail)
        · rw [hdir] at hfail
          cases hfail
        · exact hfail hfork₁
        · exact hfail hfork₂
  · exact .inl ⟨reason, errno, _, bind_error henter, ⟨rfl, rfl, rfl, hfds⟩⟩

/-- **The strong exception guarantee**: if `open(".")` can succeed, `SyscallException`
leaves `daemonize_me` whenever one of the calls fails, and the process it is thrown in
is as the caller's was. -/
theorem daemonizeMe_restores (d : DaemonImpl) (sys : System) (caller : Process)
    (hdot : sys.openDot = true) :
    (d.CallFails sys caller →
      ∃ reason err q, (d.daemonizeMe sys).run caller = .error (.syscallException reason err) q) ∧
    ∀ reason err q, (d.daemonizeMe sys).run caller = .error (.syscallException reason err) q →
      Restored caller q := by
  rcases daemonizeMe_cases d sys caller hdot with ⟨reason, err, q, hrun, hq⟩ | ⟨hnot, hquiet⟩
  · refine ⟨fun _ => ⟨reason, err, q, hrun⟩, fun reason' err' q' h => ?_⟩
    rw [hrun] at h
    obtain ⟨-, rfl⟩ := EStateM.Result.error.inj h
    exact hq
  · exact ⟨fun hfail => absurd hfail hnot, fun reason err q h => absurd h (hquiet reason err q)⟩

/-- The second call of `fork` finds no more processes. -/
def busySystem : System := { willingSystem with secondFork := some 11 }

/-- Then the exception is thrown, and the first child is as the caller was. -/
theorem daemonizeMe_restores_nohupCaller :
    ∃ reason err q,
      ((((create 0).setUmask 0o27).setWorkingDirectory "/").daemonizeMe busySystem).run
        nohupCaller = .error (.syscallException reason err) q ∧ Restored nohupCaller q := by
  obtain ⟨hthrows, hrestored⟩ := daemonizeMe_restores
    (((create 0).setUmask 0o27).setWorkingDirectory "/") busySystem nohupCaller rfl
  obtain ⟨reason, err, q, hrun⟩ := hthrows (.inr (.inr (by decide)))
  exact ⟨reason, err, q, hrun, hrestored reason err q hrun⟩

end DaemonImpl

end LomiriApi
