import LomiriApi.Daemon.Delivery
import Mathlib.Algebra.Group.Nat.Defs
import Mathlib.Data.List.Perm.Basic

/-!
# Closing all files

- `Lists names fds`: what `readdir` finds in `/proc/self/fd`, in some order.
- `ClosesEverything`: what `close_open_files` is for.
- `closesEverything_iff`: it does that exactly when `std::stoi` throws for no entry.
- `closeOpenFiles_aborts`: it throws for `"."`, so the process is always terminated.
-/

namespace LomiriApi

open Lib Process

/-! ## `std::stoi` reads what `std::to_string` writes -/

theorem isDigit_of_mem_decimal {n : Nat} {c : Char} (hc : c ∈ decimal n) : c.isDigit = true :=
  Nat.isDigit_of_mem_toDigits (by omega) (by omega) hc

theorem not_isSpace_of_isDigit {c : Char} (hc : c.isDigit = true) : isSpace c = false := by
  rw [isSpace, decide_eq_false_iff_not]
  intro hmem
  simp only [List.mem_cons, List.not_mem_nil, or_false] at hmem
  rcases hmem with rfl | rfl | rfl | rfl | rfl | rfl <;> exact absurd hc (by decide)

theorem splitSign_of_isDigit {s : Text} (hs : ∀ c ∈ s, c.isDigit = true) :
    splitSign s = ([], s) := by
  unfold splitSign
  split
  case h_1 => exact absurd (hs '-' List.mem_cons_self) (by decide)
  case h_2 => exact absurd (hs '+' List.mem_cons_self) (by decide)
  case h_3 => rfl

theorem digitsValue_decimal (n : Nat) : digitsValue (decimal n) = n :=
  Nat.ofDigitChars_ten_toDigits

/-- `std::stoi` reads back what a number is written as, if it fits into an `int`, and all
of it. -/
theorem stoi_decimal {n : Nat} (hn : n < 2 ^ 31) :
    stoi (decimal n) = .ok ((n : Int), (decimal n).length) := by
  have hspace : (decimal n).takeWhile isSpace = [] := by
    cases hd : decimal n with
    | nil => rfl
    | cons c s =>
      have hc : c ∈ decimal n := hd ▸ List.mem_cons_self
      rw [List.takeWhile_cons, not_isSpace_of_isDigit (isDigit_of_mem_decimal hc)]
      rfl
  have hdigits : (decimal n).takeWhile Char.isDigit = decimal n :=
    List.takeWhile_eq_self_iff.mpr fun c hc => isDigit_of_mem_decimal hc
  have hne : (decimal n).isEmpty = false := by
    rw [List.isEmpty_eq_false_iff]
    exact Nat.toDigits_ne_nil
  simp only [stoi, hspace, List.length_nil, List.drop_zero,
    splitSign_of_isDigit fun c hc => isDigit_of_mem_decimal hc, hdigits, hne,
    digitsValue_decimal, Bool.false_eq_true, if_false, List.nil_eq, reduceCtorEq]
  rw [if_pos (by constructor <;> omega)]
  simp

/-! ## What the loops do -/

namespace DaemonImpl

/-- The loop over the entries collects all numbers, if it gets to its end. -/
theorem descriptors_ok {names : List Text} (h : ∀ name ∈ names, ∃ r, stoi name = .ok r)
    (p : Process) :
    ∃ fds, (descriptors names).run p = .ok fds p ∧
      ∀ name ∈ names, ∀ fd, stoi name = .ok (fd, name.length) → fd ∈ fds := by
  induction names with
  | nil => exact ⟨[], rfl, fun name hname => absurd hname List.not_mem_nil⟩
  | cons name names ih =>
    obtain ⟨⟨fd, pos⟩, hname⟩ := h name List.mem_cons_self
    obtain ⟨fds, hrun, hfds⟩ := ih fun n hn => h n (List.mem_cons_of_mem name hn)
    refine ⟨if pos = name.length then fd :: fds else fds, ?_, fun n hn fd' hfd' => ?_⟩
    · simp only [descriptors, hname]
      rw [bind_ok hrun]
      rfl
    · rcases List.mem_cons.mp hn with rfl | hn
      · obtain ⟨rfl, rfl⟩ := Prod.mk.inj (Except.ok.inj (hname.symm.trans hfd'))
        rw [if_pos rfl]
        exact List.mem_cons_self
      · have hmem : fd' ∈ fds := hfds n hn fd' hfd'
        split
        · exact List.mem_cons_of_mem fd hmem
        · exact hmem

/-- One entry that `std::stoi` throws for ends the process. -/
theorem descriptors_aborts {names : List Text} {name : Text} (hmem : name ∈ names)
    {e : StoiError} (hname : stoi name = .error e) (p : Process) :
    (descriptors names).run p = .error .aborted p := by
  induction names with
  | nil => exact absurd hmem List.not_mem_nil
  | cons n names ih =>
    unfold descriptors
    split
    case h_1 => rfl
    case h_2 fd pos hok =>
      rcases List.mem_cons.mp hmem with rfl | hmem
      · rw [hname] at hok
        cases hok
      · exact bind_error (ih hmem)

/-- Closing opens nothing, so the order of the calls of `close` does not matter. -/
theorem lookup_closed_eq_none {fds : Slots OpenFile} {k : Nat} (h : fds.lookup k = none)
    (fd : Int) : (closed fds fd).lookup k = none := by
  cases fd with
  | ofNat n =>
    show (fds.clear n).lookup k = none
    rw [Slots.lookup_clear, h, ite_self]
  | negSucc n => exact h

theorem lookup_closed_self (fds : Slots OpenFile) (k : Nat) :
    (closed fds k).lookup k = none := by
  show (fds.clear k).lookup k = none
  rw [Slots.lookup_clear, if_pos rfl]

/-- The second loop closes what the first has collected. -/
theorem closeAll_ok (fds : List Int) (p : Process) :
    ∃ table, (fds.forM fun fd => modify (close fd) : Sys PUnit).run p =
        .ok () { p with fds := table } ∧
      (∀ k, p.fds.lookup k = none → table.lookup k = none) ∧
      ∀ k : Nat, (k : Int) ∈ fds → table.lookup k = none := by
  induction fds generalizing p with
  | nil => exact ⟨p.fds, rfl, fun k hk => hk, fun k hk => absurd hk List.not_mem_nil⟩
  | cons fd fds ih =>
    obtain ⟨table, hrun, hkeeps, hcloses⟩ := ih (p.close fd)
    refine ⟨table, hrun, fun k hk => hkeeps k (lookup_closed_eq_none hk fd), fun k hk => ?_⟩
    rcases List.mem_cons.mp hk with rfl | hk
    · exact hkeeps k (lookup_closed_self p.fds k)
    · exact hcloses k hk

/-! ## `close_open_files` -/

/-- The table while the directory stream is open. The stream gets the lowest free
descriptor, which is 0 by then. -/
def withStream (fds : Slots OpenFile) : Slots OpenFile :=
  (((fds.clear 0).clear 1).clear 2).alloc (.directory "/proc/self/fd")

/-- The descriptor of the directory stream. -/
def streamFd (fds : Slots OpenFile) : Nat := (((fds.clear 0).clear 1).clear 2).lowestFree

/-- The loops run while the directory stream is open. -/
theorem closeOpenFiles_run {d : DaemonImpl} {sys : System} (hclose : d.closeFds_ = true)
    (hopen : sys.opendir = true) (p : Process) :
    (d.closeOpenFiles sys).run p = (do
      let fds ← descriptors (sys.procSelfFd (withStream p.fds))
      fds.forM fun fd => modify (close fd)
      destroy (.ofResource (streamFd p.fds) close)).run { p with fds := withStream p.fds } := by
  have hstream : (modifyGet (openFile (.directory "/proc/self/fd") sys.opendir) : Sys Int).run
      { p with fds := ((p.fds.clear 0).clear 1).clear 2 } =
        .ok (streamFd p.fds) { p with fds := withStream p.fds } := by
    rw [EStateM.run_modifyGet, openFile, if_pos hopen]
    rfl
  have hne : ((streamFd p.fds : Nat) : Int) ≠ -1 := by omega
  unfold closeOpenFiles
  refine (bind_ok (EStateM.run_modify _ _)).trans ?_
  refine (bind_ok (EStateM.run_modify _ _)).trans ?_
  refine (bind_ok (EStateM.run_modify _ _)).trans ?_
  rw [if_pos hclose]
  refine (bind_ok hstream).trans ?_
  rw [if_neg hne]
  rfl

/-- `close_open_files` returns, and then all descriptors that were open, and that of the
directory stream, are closed. This is what `close_fds` asks for. -/
def ClosesEverything (d : DaemonImpl) (sys : System) (p : Process) : Prop :=
  ∃ q, (d.closeOpenFiles sys).run p = .ok () q ∧
    (∀ k, p.fds.lookup k ≠ none → q.fds.lookup k = none) ∧
    q.fds.lookup (streamFd p.fds) = none

/-- One entry that is no number is enough, wherever it is in the list. -/
theorem closeOpenFiles_aborts_of {d : DaemonImpl} {sys : System} {p : Process}
    (hclose : d.closeFds_ = true) (hopen : sys.opendir = true) {name : Text}
    (hmem : name ∈ sys.procSelfFd (withStream p.fds)) {e : StoiError}
    (hname : stoi name = .error e) :
    (d.closeOpenFiles sys).run p = .error .aborted { p with fds := withStream p.fds } := by
  rw [closeOpenFiles_run hclose hopen]
  exact bind_error (descriptors_aborts hmem hname _)

/-- If every entry parses and no open descriptor is left out, all are closed. -/
theorem closesEverything_of_parse {d : DaemonImpl} {sys : System} {p : Process}
    (hclose : d.closeFds_ = true) (hopen : sys.opendir = true)
    (hparse : ∀ name ∈ sys.procSelfFd (withStream p.fds), ∃ r, stoi name = .ok r)
    (hlisted : ∀ k, (withStream p.fds).lookup k ≠ none →
      k < 2 ^ 31 ∧ decimal k ∈ sys.procSelfFd (withStream p.fds)) :
    ClosesEverything d sys p := by
  obtain ⟨fds, hdescriptors, hfds⟩ := descriptors_ok hparse { p with fds := withStream p.fds }
  obtain ⟨table, hloop, hkeeps, hcloses⟩ := closeAll_ok fds { p with fds := withStream p.fds }
  have hnone : ∀ k, table.lookup k = none := by
    intro k
    by_cases hk : (withStream p.fds).lookup k = none
    · exact hkeeps k hk
    · obtain ⟨hlt, hmem⟩ := hlisted k hk
      exact hcloses k (hfds _ hmem k (stoi_decimal hlt))
  -- the stream's own descriptor is closed a second time, by the destructor
  refine ⟨{ p with fds := closed table (streamFd p.fds) }, ?_, fun k _ => ?_, ?_⟩
  · rw [closeOpenFiles_run hclose hopen, bind_ok hdescriptors]
    refine (bind_ok hloop).trans ?_
    rfl
  · exact lookup_closed_eq_none (hnone k) (streamFd p.fds)
  · exact lookup_closed_eq_none (hnone _) (streamFd p.fds)

/-- Everything is closed exactly when `std::stoi` throws for no entry. As `.` is always
among them, that never happens. -/
theorem closesEverything_iff {d : DaemonImpl} {sys : System} {p : Process}
    (hclose : d.closeFds_ = true) (hopen : sys.opendir = true)
    (hlisted : ∀ k, (withStream p.fds).lookup k ≠ none →
      k < 2 ^ 31 ∧ decimal k ∈ sys.procSelfFd (withStream p.fds)) :
    ClosesEverything d sys p ↔
      ∀ name ∈ sys.procSelfFd (withStream p.fds), ∃ r, stoi name = .ok r := by
  constructor
  · rintro ⟨q, hrun, -, -⟩ name hmem
    cases hname : stoi name with
    | ok r => exact ⟨r, rfl⟩
    | error e =>
      rw [closeOpenFiles_aborts_of hclose hopen hmem hname] at hrun
      cases hrun
  · exact fun hparse => closesEverything_of_parse hclose hopen hparse hlisted

/-! ## The entries that are no numbers -/

/-- The descriptors that are open. -/
def openFds (fds : Slots OpenFile) : List Nat :=
  (List.range fds.length).filter fun k => (fds.lookup k).isSome

/-- What `readdir` lists, in any order. The two entries `.` and `..` are in every
directory, and in `/proc/self/fd` too. -/
def Lists (names : List Text) (fds : Slots OpenFile) : Prop :=
  names.Perm ("." :: ".." :: (openFds fds).map decimal)

theorem stoi_dot : stoi "." = .error .invalidArgument := by decide

/-- **Nothing survives**: whatever is open and in whatever order it is listed, one entry
is `"."`; `std::stoi` throws for it, the exception leaves a `noexcept` function, and the
process ends with its files open. -/
theorem closeOpenFiles_aborts (d : DaemonImpl) (sys : System) (p : Process)
    (hclose : d.closeFds_ = true) (hopen : sys.opendir = true)
    (hlist : Lists (sys.procSelfFd (withStream p.fds)) (withStream p.fds)) :
    (d.closeOpenFiles sys).run p = .error .aborted { p with fds := withStream p.fds } ∧
      ¬ ClosesEverything d sys p := by
  have hdot : ("." : Text) ∈ sys.procSelfFd (withStream p.fds) :=
    hlist.mem_iff.mpr List.mem_cons_self
  have haborts := closeOpenFiles_aborts_of hclose hopen hdot stoi_dot
  refine ⟨haborts, ?_⟩
  rintro ⟨q, hrun, -, -⟩
  rw [haborts] at hrun
  cases hrun

/-- `/proc` as it is listed. -/
def procSystem : System :=
  { willingSystem with procSelfFd := fun fds => "." :: ".." :: (openFds fds).map decimal }

theorem closeOpenFiles_aborts_nohupCaller :
    ((create 0).closeFds.closeOpenFiles procSystem).run nohupCaller =
        .error .aborted { nohupCaller with fds := withStream nohupCaller.fds } ∧
      ¬ ClosesEverything (create 0).closeFds procSystem nohupCaller :=
  closeOpenFiles_aborts _ procSystem nohupCaller rfl rfl (List.Perm.refl _)

/-- The caller has descriptors 1 and 3; the stream gets 0, and 3 stays open. -/
theorem nohupCaller_aborted :
    Lists (procSystem.procSelfFd (withStream nohupCaller.fds)) (withStream nohupCaller.fds) ∧
      ¬ ∃ q, ((create 0).closeFds.closeOpenFiles procSystem).run nohupCaller = .ok () q := by
  refine ⟨List.Perm.refl _, ?_⟩
  rintro ⟨q, hrun⟩
  cases hrun

end DaemonImpl

end LomiriApi
