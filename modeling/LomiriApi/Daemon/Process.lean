import LomiriApi.Basic
import LomiriApi.Lib.Slots

/-!
# Processes and their system calls

- `Process`: the descriptor table, the working directory, the umask, the signal
  actions, and the place in a session.
- `System`: what is up to the system, and not to the process, when it is called.
- The system calls, as functions on processes. `fork` gives the child, whose state is
  a copy.
-/

namespace LomiriApi

open Lib

/-- A directory, by its absolute path. -/
abbrev Dir := Text

inductive AccessMode where
  | rdonly
  | wronly
  | rdwr
deriving DecidableEq, Repr

/-- What a descriptor is open on. Directories are told apart from files, as `fchdir` and
`close_open_files` need one. -/
inductive OpenFile where
  | directory (dir : Dir)
  | file (path : Text) (mode : AccessMode)
  /-- a pipe, a socket and so on -/
  | other (description : Nat)
deriving DecidableEq, Repr

/-- `sa_handler`: `SIG_DFL`, `SIG_IGN`, or a function, of which only the identity
matters. -/
inductive Handler where
  | dfl
  | ign
  | function (f : Nat)
deriving DecidableEq, Repr

/-- `struct sigaction`. The mask and the flags are carried along, because undoing has to
restore the whole action and not only its handler. -/
structure SigAction where
  handler : Handler
  mask : List Nat
  flags : Nat
deriving DecidableEq, Repr

/-- What `memset` leaves; `SIG_DFL` is 0. -/
def SigAction.zero : SigAction := ⟨.dfl, [], 0⟩

def sighup : Nat := 1

/-- `NSIG`; the signals are numbered from 1 on. -/
def nsig : Nat := 65

/-- What of a process the daemon is about. `groupLeader` decides whether `setsid` works,
and thereby why there is a `fork` in front of it. -/
structure Process where
  fds : Slots OpenFile
  cwd : Dir
  /-- the permission bits that are masked -/
  umask : BitVec 9
  actions : Nat → SigAction
  groupLeader : Bool
  sessionLeader : Bool
  controlTerminal : Option Text

/-- What the system decides when it is called. A theorem for every `System` is one for
every way in which the calls can fail. -/
structure System where
  /-- whether `open(".")` finds what it needs -/
  openDot : Bool
  openDevNull : Bool
  opendir : Bool
  /-- where a path leads from a working directory, or the error of `chdir` -/
  resolve : Dir → Text → Except Int Dir
  /-- the error of the first call of `fork`, if it fails -/
  firstFork : Option Int
  secondFork : Option Int
  /-- signals whose action `sigaction` does not set, such as `SIGKILL` -/
  reserved : Nat → Bool
  /-- the entries of `/proc/self/fd`, as `readdir` lists them -/
  procSelfFd : Slots OpenFile → List Text
  /-- what a default-initialised `int` holds -/
  indeterminate : Int

/-- The signals whose action can be set. Those that the system keeps for itself are not
among them, nor is 0. -/
def System.resettable (sys : System) (sig : Nat) : Bool :=
  1 ≤ sig && sig < nsig && !sys.reserved sig

namespace Process

/-- The table after `close(fd)`, which fails if `fd` is not open. -/
def closed (fds : Slots OpenFile) : Int → Slots OpenFile
  | .ofNat n => fds.clear n
  | .negSucc _ => fds

/-- `close`, without its result, which no caller looks at. -/
def close (fd : Int) (p : Process) : Process := { p with fds := closed p.fds fd }

/-- `open`, on what `f` says; -1 if that is not possible. The new descriptor is the lowest
one that is free, on which the use of `dup` below relies. -/
def openFile (f : OpenFile) (possible : Bool) (p : Process) : Int × Process :=
  if possible then (p.fds.lowestFree, { p with fds := p.fds.alloc f }) else (-1, p)

/-- The file that a descriptor is open on. No descriptor is negative, so -1 can be passed
on without harm. -/
def fileAt (p : Process) : Int → Option OpenFile
  | .ofNat n => p.fds.lookup n
  | .negSucc _ => none

/-- `dup`, and the lowest free descriptor again. -/
def dup (fd : Int) (p : Process) : Int × Process :=
  match p.fileAt fd with
  | some f => (p.fds.lowestFree, { p with fds := p.fds.alloc f })
  | none => (-1, p)

/-- `chdir`, and its error. -/
def chdir (sys : System) (path : Text) (p : Process) : Option Int × Process :=
  match sys.resolve p.cwd path with
  | .ok dir => (none, { p with cwd := dir })
  | .error errno => (some errno, p)

/-- `fchdir`, without its result. It fails on what is no directory, and on -1. -/
def fchdir (fd : Int) (p : Process) : Process :=
  match p.fileAt fd with
  | some (.directory dir) => { p with cwd := dir }
  | _ => p

/-- The child that `fork` makes. It has its own copy of everything here, and leads neither
a group nor a session. -/
def fork (p : Process) : Process := { p with groupLeader := false, sessionLeader := false }

/-- A group leader cannot make a session (`EPERM`). Any other process gets a session of its
own, and loses the terminal. -/
def setsid (p : Process) : Process :=
  if p.groupLeader then p
  else { p with groupLeader := true, sessionLeader := true, controlTerminal := none }

/-- `umask`, and what it was. Only the permission bits of `mask` count. -/
def setUmask (mask : UInt32) (p : Process) : UInt32 × Process :=
  (⟨p.umask.setWidth 32⟩, { p with umask := mask.toBitVec.setWidth 9 })

/-- `sigaction`, without the old action. -/
def sigaction (sys : System) (sig : Nat) (action : SigAction) (p : Process) : Process :=
  { p with
    actions := if sys.resettable sig then Function.update p.actions sig action else p.actions }

/-- What `sigaction` stores in `old_action`, which it leaves alone if it fails. -/
def oldAction (sys : System) (sig : Nat) (old_action : SigAction) (p : Process) : SigAction :=
  if sys.resettable sig then p.actions sig else old_action

/-! ## What the calls do -/

/-- Each signal has an action of its own. -/
theorem sigaction_actions (sys : System) (sig : Nat) (action : SigAction) (p : Process)
    (k : Nat) : (p.sigaction sys sig action).actions k =
      if k = sig ∧ sys.resettable sig = true then action else p.actions k := by
  unfold sigaction
  by_cases hsig : sys.resettable sig = true
  · simp only [hsig, if_true, and_true, Function.update_apply]
  · simp only [hsig, Bool.false_eq_true, if_false, and_false]

theorem openFile_eq (p : Process) (f : OpenFile) (possible : Bool) :
    (p.openFile f possible).2 = { p with fds := (p.openFile f possible).2.fds } := by
  cases possible <;> rfl

/-- Closing puts the table back as it was before `open`, also if `open` failed. -/
theorem lookup_close_openFile (p : Process) (f : OpenFile) (possible : Bool) (k : Nat) :
    (closed (p.openFile f possible).2.fds (p.openFile f possible).1).lookup k =
      p.fds.lookup k := by
  cases possible with
  | false => rfl
  | true => exact p.fds.lookup_clear_alloc f k

end Process

end LomiriApi
