import LomiriApi.Daemon.Process
import LomiriApi.ResourcePtr.Basic
import Mathlib.Algebra.Group.Int.Defs

/-!
# Daemons (DaemonImpl.cpp)

- `Sys`: a computation of the process, which a throw or an abort may end. After a
  `fork` that succeeds the model follows the child; the parent exits.
- `DaemonImpl.daemonizeMe`: `daemonize_me`. Its paragraphs have definitions of their own.
- `DaemonImpl.closeOpenFiles`: `close_open_files`.
-/

namespace LomiriApi

open Process

/-- How a computation ends if it does not return. -/
inductive Ended where
  /-- `SyscallException`, by the arguments of its constructor -/
  | syscallException (reason : Text) (err : Int)
  | logicError (e : LogicError)
  /-- a failed assertion, or an exception that leaves a `noexcept` function -/
  | aborted
deriving DecidableEq, Repr

/-- A computation on the process. Its state is kept when it ends early, since the guarantee
is about the process that a throw leaves behind. -/
abbrev Sys := EStateM Ended Process

/-- `switch (fork())`: the child goes on, the parent exits with success, and without a
child `failed` is done. -/
def forkOr (failure : Option Int) (failed : Int → Sys Unit) : Sys Unit :=
  match failure with
  | none => modify Process.fork
  | some errno => failed errno

/-- `assert` -/
def assert_ (b : Bool) : Sys Unit := if b then pure () else throw .aborted

/-! ## The saved working directory -/

/-- The type of `old_working_dir`; its deleter is a function on the process. -/
abbrev OldWorkingDir := ResourcePtr Int (Int → Process → Process)

/-- The deleter of `old_working_dir`: go back to the saved directory and close it. It is
never given -1 to close. -/
def restoreWorkingDir (fd : Int) (p : Process) : Process :=
  if fd != -1 then (p.fchdir fd).close fd else p

/-- The deleter call that a member function of `ResourcePtr` has left to be made, if
any. -/
def callDeleter : Option (DeleterCall Int (Int → Process → Process)) → Sys Unit
  | none => pure ()
  | some call => modify (call.deleter call.resource)

/-- `~ResourcePtr()`; the deleters here do not throw, so that nothing is swallowed. -/
def destroy (ptr : OldWorkingDir) : Sys Unit := callDeleter ptr.dealloc.2

/-- A throw that leaves the scope of `old_working_dir`, whose destructor goes back to the
saved directory on the way. -/
def unwind {α : Type} (oldWorkingDir : OldWorkingDir) (e : Ended) : Sys α := do
  destroy oldWorkingDir
  throw e

/-- What a member function of `old_working_dir` returns, or what it throws. -/
def orUnwind {α : Type} (oldWorkingDir : OldWorkingDir) : Except LogicError α → Sys α
  | .ok a => pure a
  | .error e => unwind oldWorkingDir (.logicError e)

/-! ## `std::stoi` -/

inductive StoiError where
  | invalidArgument
  | outOfRange
deriving DecidableEq, Repr

/-- `std::isspace` in the C locale, which `std::stoi` skips. -/
def isSpace (c : Char) : Bool := c ∈ [' ', '\t', '\n', '\x0b', '\x0c', '\r']

/-- The number that decimal digits denote. -/
def digitsValue (digits : Text) : Nat :=
  digits.foldl (fun n c => 10 * n + (c.toNat - '0'.toNat)) 0

/-- An optional sign, and the rest. -/
def splitSign : Text → Text × Text
  | '-' :: s => (['-'], s)
  | '+' :: s => (['+'], s)
  | s => ([], s)

/-- `std::stoi(s, &pos)`: the longest leading integer and the position after it. Text that
does not start with a number throws, which `close_open_files` does not expect. -/
def stoi (s : Text) : Except StoiError (Int × Nat) :=
  let space := s.takeWhile isSpace
  let (sign, rest) := splitSign (s.drop space.length)
  let digits := rest.takeWhile Char.isDigit
  if digits.isEmpty then .error .invalidArgument
  else
    let n : Int := if sign = ['-'] then -digitsValue digits else digitsValue digits
    if -2 ^ 31 ≤ n ∧ n < 2 ^ 31 then .ok (n, space.length + sign.length + digits.length)
    else .error .outOfRange

/-! ## `DaemonImpl` -/

structure DaemonImpl where
  closeFds_ : Bool
  resetSignals_ : Bool
  setUmask_ : Bool
  umask_ : UInt32
  workingDirectory_ : Text
deriving DecidableEq

namespace DaemonImpl

/-- `DaemonImpl()` leaves `umask_` as it happens to be. -/
def create (indeterminate : UInt32) : DaemonImpl := ⟨false, false, false, indeterminate, []⟩

def closeFds (d : DaemonImpl) : DaemonImpl := { d with closeFds_ := true }

def resetSignals (d : DaemonImpl) : DaemonImpl := { d with resetSignals_ := true }

def setUmask (d : DaemonImpl) (mask : UInt32) : DaemonImpl :=
  { d with setUmask_ := true, umask_ := mask }

def setWorkingDirectory (d : DaemonImpl) (workingDirectory : Text) : DaemonImpl :=
  { d with workingDirectory_ := workingDirectory }

/-- Change the working directory if the caller asked for that, and save the old one. This
comes first, being the most likely thing to fail; the old one is needed if a `fork` fails
later. -/
def enterWorkingDirectory (d : DaemonImpl) (sys : System) (oldWorkingDir : OldWorkingDir) :
    Sys OldWorkingDir :=
  if d.workingDirectory_.isEmpty then pure oldWorkingDir
  else do
    let fd ← modifyGet fun p => p.openFile (.directory p.cwd) sys.openDot
    -- the file may not have been opened: then the resource is -1
    let (oldWorkingDir, call) := oldWorkingDir.reset fd
    callDeleter call
    match ← modifyGet (Process.chdir sys (cStr d.workingDirectory_)) with
    | none => pure oldWorkingDir
    | some errno =>
      let reason : Text := "chdir(\"" ++ cStr d.workingDirectory_ ++ "\") failed"
      unwind oldWorkingDir (.syscallException reason errno)

/-- The action that ignores a signal, with all else zero. -/
def ignoreAction : SigAction := { SigAction.zero with handler := .ign }

/-- The action that the reset installs. -/
def defaultAction : SigAction := { ignoreAction with handler := .dfl }

/-- Set the umask if the caller asked for that; what it was. -/
def changeUmask (d : DaemonImpl) : Sys UInt32 :=
  if d.setUmask_ then modifyGet (Process.setUmask d.umask_) else pure 0

/-- Ignore `SIGHUP`; the previous action. When the first child exits, as leader of the
session, `SIGHUP` may be sent to the second. -/
def ignoreHangup (sys : System) : Sys SigAction :=
  modifyGet fun p => (p.oldAction sys sighup SigAction.zero, p.sigaction sys sighup ignoreAction)

/-- The second `fork` failed: put back what was changed since the first. The working
directory is left to the destructor. -/
def undo (d : DaemonImpl) (sys : System) (oldUmask : UInt32) (oldAction : SigAction) :
    Sys Unit := do
  if d.setUmask_ then modify fun p => (p.setUmask oldUmask).2
  modify (sigaction sys sighup oldAction)

/-- The loop that resets all signals. -/
def resetAll (sys : System) (p : Process) : Process :=
  (List.range' 1 (nsig - 1)).foldl (fun p sig => p.sigaction sys sig defaultAction) p

/-- Restore the action of `SIGHUP`, or reset all signals if the caller asked for that.
There is nothing to restore if `SIGHUP` was ignored before. -/
def settleSignals (d : DaemonImpl) (sys : System) (oldAction : SigAction) : Sys Unit := do
  if !d.resetSignals_ && oldAction.handler != ignoreAction.handler then
    modify (sigaction sys sighup oldAction)
  if d.resetSignals_ then
    modify (resetAll sys)

/-- The loop over the entries of `/proc/self/fd`. A name with something behind the number
is passed over; one without a number throws. -/
def descriptors : List Text → Sys (List Int)
  | [] => pure []
  | name :: names =>
    match stoi name with
    -- the exception leaves `close_open_files`
    | .error _ => throw .aborted
    | .ok (fd, pos) => do
      let rest ← descriptors names
      pure (if pos = name.length then fd :: rest else rest)

/-- `close_open_files`. It is `noexcept`, so what `std::stoi` throws ends the process. -/
def closeOpenFiles (d : DaemonImpl) (sys : System) : Sys Unit := do
  modify (close 0)
  modify (close 1)
  modify (close 2)
  if d.closeFds_ then
    let dirp ← modifyGet (openFile (.directory "/proc/self/fd") sys.opendir)
    if dirp = -1 then return
    let dir : OldWorkingDir := .ofResource dirp close
    let fds ← descriptors (sys.procSelfFd (← get).fds)
    fds.forM fun fd => modify (close fd)
    destroy dir

def devNull : OpenFile := .file "/dev/null" .rdwr

/-- Connect the standard descriptors to `/dev/null`. They have just been closed, so they
are the lowest free ones; the assertions check that. -/
def openStandard (sys : System) : Sys Unit := do
  let fd ← modifyGet (openFile devNull sys.openDevNull)
  assert_ (fd == 0)
  let fd ← modifyGet (dup fd)
  assert_ (fd == 1)
  let fd ← modifyGet (dup fd)
  assert_ (fd == 2)

/-- The second child gives the saved descriptor back, and will not restore the old
working directory. -/
def dropWorkingDir (oldWorkingDir : OldWorkingDir) : Sys OldWorkingDir :=
  if oldWorkingDir.hasResource then do
    let fd ← orUnwind oldWorkingDir oldWorkingDir.get
    modify (close fd)
    let (_, oldWorkingDir) ← orUnwind oldWorkingDir oldWorkingDir.release
    pure oldWorkingDir
  else pure oldWorkingDir

/-- `daemonize_me`. The order of its paragraphs matters: what has to be undone on a failure
comes before the second `fork`, and nothing after it throws `SyscallException`. -/
def daemonizeMe (d : DaemonImpl) (sys : System) : Sys Unit := do
  let oldWorkingDir ←
    d.enterWorkingDirectory sys (.ofDeleter sys.indeterminate restoreWorkingDir)
  forkOr sys.firstFork fun errno =>
    unwind oldWorkingDir (.syscallException "fork() failed" errno)
  modify setsid
  let oldUmask ← d.changeUmask
  let oldAction ← ignoreHangup sys
  forkOr sys.secondFork fun errno => do
    d.undo sys oldUmask oldAction
    unwind oldWorkingDir (.syscallException "fork() failed" errno)
  let oldWorkingDir ← dropWorkingDir oldWorkingDir
  d.settleSignals sys oldAction
  d.closeOpenFiles sys
  openStandard sys
  destroy oldWorkingDir

end DaemonImpl

end LomiriApi
