import LomiriApi.Basic

/-!
# `lomiri::Exception`: objects, links and rendering (Exception.cpp)

- `Thrown ρ`: what `rethrow_exception` can throw, up to what the handlers of the
  source can tell apart (their `catch` clauses and `dynamic_cast`s). Its links are
  `std::exception_ptr` values, of type `Option ρ`; `none` is the null pointer.
- A memory `mem : ρ → Thrown ρ` says which exception a non-null pointer refers
  to, that is, what rethrowing the pointer throws.
- `toStringAt`, `followNested`, `followHistory`: the three mutually recursive
  functions behind `Exception::to_string`. Links may form loops, so the functions
  take fuel; a call that has not come back when the fuel is used up is
  `Result.running`.
- The indent level is an `int` in the source and an `Int` here: the three functions
  add to it on their way down, and it is assumed that the level plus the depth of the
  structure fits an `int` (what happens beyond is undefined in C++). The loop of
  `get_margin` is run `indentLevel.toNat` times, that is, not at all for a negative
  level.
- A handler whose `catch` clauses do not match lets the exception pass: that is
  `Result.threw`.
- The classes of LomiriExceptions.cpp, as the names and reasons that they give to
  the base class.
-/

namespace LomiriApi

/-- An object of class `lomiri::Exception`. `nested` is the pointer that its base
class `std::nested_exception` has captured. -/
structure Exception (ρ : Type) where
  name_ : Text
  reason_ : Text
  nested : Option ρ
  earlier_ : Option ρ
deriving DecidableEq, Repr

/-- An exception that derives from `std::nested_exception`. -/
inductive NestedException (ρ : Type) where
  /-- a `lomiri::Exception` -/
  | lomiri (e : Exception ρ)
  /-- another class that derives from `std::exception` too -/
  | derived (what : Text) (nested : Option ρ)
  /-- a class that does not derive from `std::exception` -/
  | bare (nested : Option ρ)
deriving DecidableEq, Repr

/-- An exception of any kind. -/
inductive Thrown (ρ : Type) where
  | nested (e : NestedException ρ)
  /-- a `std::exception` that is not a `std::nested_exception` -/
  | std (what : Text)
  /-- anything else -/
  | unknown
deriving DecidableEq, Repr

/-- `nested_ptr()`. -/
def NestedException.nestedPtr {ρ : Type} : NestedException ρ → Option ρ
  | .lomiri e => e.nested
  | .derived _ nested => nested
  | .bare nested => nested

/-- How a call comes back: not yet, with an exception, or with a value. -/
inductive Result (ρ α : Type) where
  | running
  | threw (t : Thrown ρ)
  | done (a : α)
deriving DecidableEq, Repr

namespace Result

variable {ρ α β : Type}

/-- Go on with `f` after a normal return. -/
def bind (r : Result ρ α) (f : α → Result ρ β) : Result ρ β :=
  match r with
  | running => running
  | threw t => threw t
  | done a => f a

instance : Monad (Result ρ) where
  pure := done
  bind := bind

@[simp] theorem bind_threw (t : Thrown ρ) (f : α → Result ρ β) :
    (threw t >>= f : Result ρ β) = threw t := rfl

@[simp] theorem bind_done (a : α) (f : α → Result ρ β) :
    (done a >>= f : Result ρ β) = f a := rfl

@[simp] theorem pure_eq (a : α) : (pure a : Result ρ α) = done a := rfl

end Result

/-- `get_margin()`, for the number of times that its loop is run. -/
def getMargin : Nat → Text → Text
  | 0, _ => []
  | n + 1, indent => getMargin n indent ++ indent

/-- What `print_name_and_reason()` appends to an unknown `std::exception`. -/
def derivedNote : Text := " (derived from std::exception and std::nested_exception)"

/-- What `print_name_and_reason()` shows of an unknown `std::nested_exception`. -/
def bareText : Text := "std::nested_exception"

/-- What is shown of an exception whose type is not known. -/
def unknownText : Text := "unknown exception"

/-- `print_name_and_reason()`. -/
def printNameAndReason {ρ : Type} (s : Text) : NestedException ρ → Text
  | .lomiri e =>
    let s := s ++ e.name_
    if e.reason_ ≠ [] then s ++ (": " ++ e.reason_) else s
  | .derived what _ =>
    let s := s ++ what
    s ++ derivedNote
  | .bare _ => s ++ bareText

section Rendering

variable {ρ : Type} (mem : ρ → Thrown ρ)

mutual

/-- `Exception::to_string(indent_level, indent)`: name and reason, then the history,
then what is nested. Both calls go further down, to `indentLevel + 2` and
`indentLevel + 1`; the levels are assumed to fit an `int`. -/
def toStringAt : Nat → Exception ρ → Int → Text → Result ρ Text
  | 0, _, _, _ => .running
  | fuel + 1, this, indentLevel, indent =>
    let margin := getMargin indentLevel.toNat indent
    let s := margin
    let s := s ++ this.name_
    let s := if this.reason_ ≠ [] then s ++ (": " ++ this.reason_) else s
    -- Check whether there is an exception history and print each exception in the history.
    let history : Result ρ Text := match this.earlier_ with
      | none => pure s
      | some earlier =>
        let s := s ++ ("\n" ++ margin ++ indent ++ "Exception history:")
        match mem earlier with
        | .nested (.lomiri e) => do
          let (s, _) ← followHistory fuel s e (indentLevel + 2) indent
          pure s
        | t => .threw t  -- `catch (lomiri::Exception const&)` is the only handler
    do
      let s ← history
      -- Print this and any nested exceptions.
      followNested fuel s (.lomiri this) indentLevel indent

/-- `follow_nested()`: what is nested in the exception, appended to `s`, one level
deeper for each exception. It rethrows the nested pointer and has handlers for
everything that can be thrown. The levels are assumed to fit an `int`. -/
def followNested : Nat → Text → NestedException ρ → Int → Text → Result ρ Text
  | 0, _, _, _, _ => .running
  | fuel + 1, s, nested, indentLevel, indent =>
    match nested.nestedPtr with
    | none => pure s
    | some p =>
      let margin := getMargin indentLevel.toNat indent
      let s := s ++ ":\n"
      match mem p with
      | .nested (.lomiri e) => do
        let t ← toStringAt fuel e (indentLevel + 1) indent
        pure (s ++ t)
      | .nested e =>
        let s := s ++ (margin ++ indent)
        let s := printNameAndReason s e
        followNested fuel s e (indentLevel + 1) indent
      | .std what => pure (s ++ (margin ++ indent) ++ what)
      | .unknown => pure (s ++ (margin ++ indent) ++ unknownText)

/-- `follow_history()`: the text, and the generation number of `e`. The history is
printed from its oldest exception on, all at the same level, so the call for the
earlier exception comes first; its only handler is for a `lomiri::Exception`. The
level, and the deeper ones of what is nested, are assumed to fit an `int`. -/
def followHistory : Nat → Text → Exception ρ → Int → Text → Result ρ (Text × Nat)
  | 0, _, _, _, _ => .running
  | fuel + 1, s, e, indentLevel, indent =>
    let older : Result ρ (Text × Nat) := match e.earlier_ with
      | none => pure (s, 1)  -- We have reached the oldest exception.
      | some earlier =>
        match mem earlier with
        | .nested (.lomiri e) => do
          let (s, count) ← followHistory fuel s e indentLevel indent
          pure (s, count + 1)
        | t => .threw t
    do
      let (s, count) ← older
      -- Show info for this exception.
      let s := s ++ ("\n" ++ getMargin indentLevel.toNat indent ++ "Exception #")
      let s := s ++ (decimal count ++ ":\n")
      let s := s ++ (getMargin indentLevel.toNat indent ++ indent)
      let s := printNameAndReason s (.lomiri e)
      let s ← followNested fuel s (.lomiri e) (indentLevel + 1) indent
      pure (s, count)

end

/-- The default `indent`. -/
def defaultIndent : Text := "    "

/-- `Exception::to_string(indent)`. -/
def toString_ (fuel : Nat) (this : Exception ρ) (indent : Text) : Result ρ Text :=
  toStringAt mem fuel this 0 indent

/-- `Exception::what()`, as the C string that the returned pointer refers to: `what_`
keeps all characters of the text, but whoever reads from `what_.c_str()` stops at the
first NUL. -/
def what : Nat → Exception ρ → Result ρ Text
  | 0, _ => .running
  | fuel + 1, this =>
    match toString_ mem fuel this defaultIndent with
    | .running => .running
    | .done s => .done (cStr s)  -- what_.c_str()
    -- catch (std::exception const& e)
    | .threw (.nested (.lomiri e)) => what fuel e
    | .threw (.nested (.derived what _)) => .done what
    | .threw (.std what) => .done what
    -- catch (...)
    | .threw (.nested (.bare _)) => .done unknownText
    | .threw .unknown => .done unknownText

end Rendering

/-! ## The lomiri exception classes (LomiriExceptions.cpp)

A constructor runs `std::nested_exception`'s default constructor, which captures
the exception that is being handled, `current`. -/

section Classes

variable {ρ : Type} (current : Option ρ)

def invalidArgumentException (reason : Text) : Exception ρ :=
  ⟨"lomiri::InvalidArgumentException", reason, current, none⟩

def logicException (reason : Text) : Exception ρ :=
  ⟨"lomiri::LogicException", reason, current, none⟩

def shutdownException (reason : Text) : Exception ρ :=
  ⟨"lomiri::ShutdownException", reason, current, none⟩

/-- The reason of an exception that carries an error number. -/
def errnoReason (reason : Text) (err : Int) : Text :=
  reason ++ (if reason = [] then "" else " ") ++ "(errno = " ++ decimalInt err ++ ")"

def fileException (reason : Text) (err : Int) : Exception ρ :=
  ⟨"lomiri::FileException", errnoReason reason err, current, none⟩

def syscallException (reason : Text) (err : Int) : Exception ρ :=
  ⟨"lomiri::SyscallException", errnoReason reason err, current, none⟩

def resourceException (reason : Text) : Exception ρ :=
  ⟨"lomiri::ResourceException", reason, current, none⟩

end Classes

end LomiriApi
