import LomiriApi.Daemon.Process
import LomiriApi.ResourcePtr.Basic
import Mathlib.Algebra.Group.Int.Defs

/-!
# Reading files (FileIO.cpp)

- `File`: what the system does with a file when it is opened, asked for its status and
  read. How many bytes `read` transfers is up to the system, within limits.
- `IoState`: the descriptors of the process, the calls of `close` so far, and `errno`.
- `readFile`: `read_file`, with an exit for each thing that can go wrong.
-/

namespace LomiriApi

open Lib Process

namespace FileIO

/-- What `fstat` says of a file, as far as `read_file` looks at it. -/
structure Stat where
  /-- `S_ISREG(st_mode)` -/
  isReg : Bool
  size : Nat
deriving DecidableEq, Repr

/-- What the system does with a file, and the errors it reports. A `read` may transfer
fewer bytes than there are, but at least one if there is any. -/
structure File where
  opens : Except Int Unit
  status : Except Int Stat
  content : Bytes
  /-- how many bytes the first `read` of a size transfers -/
  transfer : Nat → Except Int Nat
  transfer_le : ∀ n count, transfer n = .ok count → count ≤ n ∧ count ≤ content.length
  transfer_pos : ∀ n count, transfer n = .ok count → 0 < n → content ≠ [] → 0 < count

/-- What a path leads to. Every path leads somewhere; a file that does not exist is one
that cannot be opened. -/
abbrev FileSystem := Text → File

/-- The part of the process that `read_file` touches. The calls of `close` are recorded, so
that closing twice can be told from closing once. -/
structure IoState where
  fds : Slots OpenFile
  closes : List Int
  errno : Int

/-- How `read_file` ends if it does not return. -/
inductive Thrown where
  /-- `FileException`, by the arguments of its constructor -/
  | fileException (reason : Text) (err : Int)
  | logicError (e : LogicError)
deriving DecidableEq, Repr

/-- A computation that may throw, and keeps the state when it does. -/
abbrev Io := EStateM Thrown IoState

/-! ## System calls -/

/-- `open(filename.c_str(), O_RDONLY)` -/
def openRdonly (fs : FileSystem) (filename : Text) (s : IoState) : Int × IoState :=
  match (fs (cStr filename)).opens with
  | .error errno => (-1, { s with errno := errno })
  | .ok () => (s.fds.lowestFree, { s with fds := s.fds.alloc (.file (cStr filename) .rdonly) })

/-- The file that a descriptor is open on, if it is open on one. -/
def fileAt (fs : FileSystem) (s : IoState) : Int → Option File
  | .ofNat n =>
    match s.fds.lookup n with
    | some (.file path _) => some (fs path)
    | _ => none
  | .negSucc _ => none

def ebadf : Int := 9

/-- `fstat`; `none` is -1. -/
def fstat (fs : FileSystem) (fd : Int) (s : IoState) : Option Stat × IoState :=
  match fileAt fs s fd with
  | none => (none, { s with errno := ebadf })
  | some file =>
    match file.status with
    | .error errno => (none, { s with errno := errno })
    | .ok st => (some st, s)

/-- The first `read` from a descriptor: what it returns, and what it leaves in `buf`. The
bytes behind the ones it transfers stay as they were. -/
def read (fs : FileSystem) (fd : Int) (buf : Bytes) (n : Nat) (s : IoState) :
    (Int × Bytes) × IoState :=
  match fileAt fs s fd with
  | none => ((-1, buf), { s with errno := ebadf })
  | some file =>
    match file.transfer n with
    | .error errno => ((-1, buf), { s with errno := errno })
    | .ok count => ((count, file.content.take count ++ buf.drop count), s)

/-- `close`, whose result is not looked at. -/
def close (fd : Int) (s : IoState) : IoState :=
  { s with fds := closed s.fds fd, closes := s.closes ++ [fd] }

/-! ## The descriptor's owner -/

/-- The type of `fd`; its deleter is a function on the state. -/
abbrev Fd := ResourcePtr Int (Int → IoState → IoState)

/-- The deleter of `fd`. It closes nothing if `open` has failed. -/
def closeFd (fd : Int) (s : IoState) : IoState := if fd != -1 then close fd s else s

/-- `~ResourcePtr()`; the deleter does not throw. -/
def destroy (fd : Fd) : Io Unit :=
  match fd.dealloc.2 with
  | none => pure ()
  | some call => modify (call.deleter call.resource)

/-- A throw that leaves the scope of `fd`, whose destructor closes the file on the way. -/
def unwind {α : Type} (fd : Fd) (e : Thrown) : Io α := do
  destroy fd
  throw e

/-- `fd.get()`, which throws if no descriptor is held. That does not happen here, as the
proofs have to show. -/
def getFd (fd : Fd) : Io Int :=
  match fd.get with
  | .ok n => pure n
  | .error e => unwind fd (.logicError e)

/-! ## `read_file` -/

section Functions

variable (strerror : Int → Text) (fs : FileSystem)

/-- The reason that is given if `read` has not transferred `size` bytes. -/
def cannotRead (filename : Text) (size : Nat) (errno : Int) : Text :=
  let msg : Text := "cannot read " ++ decimal size ++ " byte"
  let msg := if size ≠ 1 then msg ++ "s" else msg
  msg ++ (" from \"" ++ filename ++ "\": " ++ strerror errno)

/-- The rest of `read_file` once the file is known to be regular. -/
def readRegular (filename : Text) (fd : Fd) (size : Nat) : Io Bytes := do
  let buf : Bytes := List.replicate size 0
  if size = 0 then
    destroy fd
    return buf
  else
    let (count, buf) ← modifyGet (read fs (← getFd fd) buf size)
    if count ≠ size then
      -- a short `read` is no error: `errno` is what an earlier call has left
      let errno := (← get).errno
      unwind fd (.fileException (cannotRead strerror filename size errno) errno)
    else
      destroy fd
      return buf

/-- The rest of `read_file` once the file is open. -/
def readOpened (filename : Text) (fd : Fd) : Io Bytes := do
  match ← modifyGet (fstat fs (← getFd fd)) with
  | none =>
    let errno := (← get).errno
    unwind fd
      (.fileException ("cannot fstat \"" ++ filename ++ "\": " ++ strerror errno) errno)
  | some st =>
    if !st.isReg then
      unwind fd (.fileException ("\"" ++ filename ++ "\" is not a regular file") 0)
    else
      readRegular strerror fs filename fd st.size

/-- `read_file<T>(filename)`; an element of the vector is one byte. -/
def readFile (filename : Text) : Io Bytes := do
  let fd : Fd := .ofResource (← modifyGet (openRdonly fs filename)) closeFd
  if (← getFd fd) = -1 then
    let errno := (← get).errno
    unwind fd (.fileException ("cannot open \"" ++ filename ++ "\": " ++ strerror errno) errno)
  else
    readOpened strerror fs filename fd

/-- `read_text_file(filename)`; a character of the string is one byte. -/
def readTextFile (filename : Text) : Io Bytes := do
  let buf ← readFile strerror fs filename
  return buf

/-- `read_binary_file(filename)` -/
def readBinaryFile (filename : Text) : Io Bytes := readFile strerror fs filename

end Functions

end FileIO

end LomiriApi
