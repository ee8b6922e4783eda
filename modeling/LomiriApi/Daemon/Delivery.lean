import LomiriApi.Daemon.Basic

/-!
# What the daemon is like

- `Delivered d sys caller dir q`: the process `q` is the daemon that was asked for.
- One lemma for each paragraph of `daemonize_me` says what it makes of the process.
- `daemonizeMe_delivers`: if nothing fails that can be noticed, the daemon is the one
  that was asked for.
-/

namespace LomiriApi

open Lib Process

namespace DaemonImpl

/-- The working directory that was asked for, or the error of going there. -/
def requestedDir (d : DaemonImpl) (sys : System) (caller : Process) : Except Int Dir :=
  if d.workingDirectory_.isEmpty then .ok caller.cwd
  else sys.resolve caller.cwd (cStr d.workingDirectory_)

/-- `q` is the daemon that `d` asks for, in the directory `dir`. -/
structure Delivered (d : DaemonImpl) (sys : System) (caller : Process) (dir : Dir)
    (q : Process) : Prop where
  standard : ∀ k ≤ 2, q.fds.lookup k = some devNull
  others : ∀ k, 2 < k → q.fds.lookup k = caller.fds.lookup k
  cwd : q.cwd = dir
  umask : q.umask = if d.setUmask_ then d.umask_.toBitVec.setWidth 9 else caller.umask
  handler : ∀ sig, (q.actions sig).handler =
    if d.resetSignals_ && sys.resettable sig then .dfl else (caller.actions sig).handler
  not_leader : q.sessionLeader = false
  no_terminal : q.controlTerminal = none

/-! ## Sequencing -/

/-- A program in `Sys` is followed statement by statement: one that returns hands its state
on. -/
theorem bind_ok {α β : Type} {x : Sys α} {f : α → Sys β} {p q : Process} {a : α}
    (h : x.run p = .ok a q) : (x >>= f).run p = (f a).run q := by
  rw [EStateM.run_bind, h]

/-- A statement that ends otherwise ends the program. -/
theorem bind_error {α β : Type} {x : Sys α} {f : α → Sys β} {p q : Process} {e : Ended}
    (h : x.run p = .error e q) : (x >>= f).run p = .error e q := by
  rw [EStateM.run_bind, h]

/-- A `fork` that succeeds goes on in the child. -/
theorem forkOr_none (failed : Int → Sys Unit) (p : Process) :
    (forkOr none failed).run p = .ok () p.fork := rfl

/-! ## The saved working directory -/

/-- Giving back what is saved leaves the table `fds`. -/
def Saves (oldWorkingDir : OldWorkingDir) (now fds : Slots OpenFile) : Prop :=
  match oldWorkingDir.held with
  | none => now = fds
  | some fd => ∀ k, (closed now fd).lookup k = fds.lookup k

/-- If the directory can be entered, the process is in it, and the old one is saved where
that is possible. -/
theorem enterWorkingDirectory_ok {d : DaemonImpl} {sys : System} {p : Process} {dir : Dir}
    (hdir : d.requestedDir sys p = .ok dir) :
    ∃ oldWorkingDir fds,
      (d.enterWorkingDirectory sys (.ofDeleter sys.indeterminate restoreWorkingDir)).run p =
        .ok oldWorkingDir { p with fds := fds, cwd := dir } ∧
      Saves oldWorkingDir fds p.fds := by
  unfold requestedDir at hdir
  unfold enterWorkingDirectory
  split at hdir
  case isTrue hempty =>
    obtain rfl := Except.ok.inj hdir
    rw [if_pos hempty]
    exact ⟨_, p.fds, rfl, rfl⟩
  case isFalse hempty =>
    rw [if_neg hempty]
    obtain ⟨fd, fds, hopen⟩ : ∃ fd fds,
        p.openFile (.directory p.cwd) sys.openDot = (fd, { p with fds := fds }) :=
      ⟨_, _, Prod.ext rfl (p.openFile_eq _ _)⟩
    have hget : (modifyGet fun p : Process => p.openFile (.directory p.cwd) sys.openDot :
        Sys Int).run p = .ok fd { p with fds := fds } := by
      rw [EStateM.run_modifyGet, hopen]
    have hchdir : (modifyGet (Process.chdir sys (cStr d.workingDirectory_)) :
        Sys (Option Int)).run { p with fds := fds } =
          .ok none { p with fds := fds, cwd := dir } := by
      rw [EStateM.run_modifyGet, Process.chdir, hdir]
    refine ⟨⟨fd, restoreWorkingDir, true⟩, fds, ?_, ?_⟩
    · -- nothing was held before, so the deleter is not called
      rw [bind_ok hget]
      refine (bind_ok (x := callDeleter none) rfl).trans ?_
      rw [bind_ok hchdir]
      rfl
    · have := p.lookup_close_openFile (.directory p.cwd) sys.openDot
      rw [hopen] at this
      exact this

/-- Destroying a `ResourcePtr` that holds nothing does nothing. -/
theorem destroy_of_not_held {oldWorkingDir : OldWorkingDir} (h : oldWorkingDir.held = none)
    (p : Process) : (destroy oldWorkingDir).run p = .ok () p := by
  obtain ⟨fd, deleter, initialized⟩ := oldWorkingDir
  cases initialized with
  | false => rfl
  | true => cases h

/-- Once everything has worked, the old directory is given up: the descriptor that saved it
is closed. -/
theorem dropWorkingDir_ok {oldWorkingDir : OldWorkingDir} {p : Process} {fds : Slots OpenFile}
    (h : Saves oldWorkingDir p.fds fds) :
    ∃ oldWorkingDir' fds',
      (dropWorkingDir oldWorkingDir).run p = .ok oldWorkingDir' { p with fds := fds' } ∧
      oldWorkingDir'.held = none ∧ ∀ k, fds'.lookup k = fds.lookup k := by
  obtain ⟨fd, deleter, initialized⟩ := oldWorkingDir
  cases initialized with
  | false =>
    obtain rfl : p.fds = fds := h
    exact ⟨⟨fd, deleter, false⟩, p.fds, rfl, rfl, fun k => rfl⟩
  | true => exact ⟨⟨fd, deleter, false⟩, closed p.fds fd, rfl, rfl, h⟩

/-! ## The standard descriptors -/

/-- The slots below `n` are on `/dev/null`, the others up to 2 are free, and all others
are as in `base`. -/
structure Standard (n : Nat) (fds base : Slots OpenFile) : Prop where
  opened : ∀ k < n, fds.lookup k = some devNull
  free : ∀ k, n ≤ k → k ≤ 2 → fds.lookup k = none
  others : ∀ k, 2 < k → fds.lookup k = base.lookup k

/-- The next descriptor to be opened is the next standard one, as those below are in
use. -/
theorem Standard.lowestFree {n : Nat} {fds base : Slots OpenFile} (h : Standard n fds base)
    (hn : n ≤ 2) : fds.lowestFree = n := by
  refine Slots.lowestFree_eq_iff.mpr ⟨h.free n (Nat.le_refl n) hn, fun k hk => ?_⟩
  rw [h.opened k hk]
  exact Option.some_ne_none _

/-- Each descriptor that is opened is the next one. -/
theorem Standard.alloc {n : Nat} {fds base : Slots OpenFile} (h : Standard n fds base)
    (hn : n ≤ 2) : Standard (n + 1) (fds.alloc devNull) base := by
  have hlow : fds.lowestFree = n := h.lowestFree hn
  refine ⟨fun k hk => ?_, fun k hk hk₂ => ?_, fun k hk => ?_⟩
  · rw [Slots.lookup_alloc, hlow]
    split
    case isTrue => rfl
    case isFalse hne => exact h.opened k (by omega)
  · rw [Slots.lookup_alloc, hlow, if_neg (by omega)]
    exact h.free k (by omega) hk₂
  · rw [Slots.lookup_alloc, hlow, if_neg (by omega)]
    exact h.others k hk

/-- After the three were closed, all of them are free. -/
theorem standard_closed (fds : Slots OpenFile) :
    Standard 0 (((fds.clear 0).clear 1).clear 2) fds := by
  refine ⟨fun k hk => absurd hk (Nat.not_lt_zero k), fun k _ hk => ?_, fun k hk => ?_⟩
  · rw [Slots.lookup_clear, Slots.lookup_clear, Slots.lookup_clear]
    split
    · rfl
    · split
      · rfl
      · rw [if_pos (by omega)]
  · rw [Slots.lookup_clear, Slots.lookup_clear, Slots.lookup_clear, if_neg (by omega),
      if_neg (by omega), if_neg (by omega)]

/-- Without `close_fds()` just the standard descriptors are closed. -/
theorem closeOpenFiles_ok {d : DaemonImpl} (hd : d.closeFds_ = false) (sys : System)
    (p : Process) :
    (d.closeOpenFiles sys).run p = .ok () { p with fds := ((p.fds.clear 0).clear 1).clear 2 } := by
  rw [closeOpenFiles, hd]
  rfl

/-- Opening `/dev/null` three times fills the three standard descriptors in order, as each
`open` takes the lowest free one. -/
theorem openStandard_ok {sys : System} (hnull : sys.openDevNull = true) {p : Process}
    {base : Slots OpenFile} (h : Standard 0 p.fds base) :
    ∃ fds, (openStandard sys).run p = .ok () { p with fds := fds } ∧ Standard 3 fds base := by
  have h₁ : Standard 1 (p.fds.alloc devNull) base := h.alloc (by omega)
  have h₂ : Standard 2 ((p.fds.alloc devNull).alloc devNull) base := h₁.alloc (by omega)
  have h₃ : Standard 3 (((p.fds.alloc devNull).alloc devNull).alloc devNull) base :=
    h₂.alloc (by omega)
  have hopen : (modifyGet (openFile devNull sys.openDevNull) : Sys Int).run p =
      .ok ((0 : Nat) : Int) { p with fds := p.fds.alloc devNull } := by
    rw [EStateM.run_modifyGet, openFile, if_pos hnull, h.lowestFree (by omega)]
  have hdup : ∀ {n : Nat} {fds : Slots OpenFile}, Standard (n + 1) fds base → n + 1 ≤ 2 →
      (modifyGet (dup n) : Sys Int).run { p with fds := fds } =
        .ok ((n + 1 : Nat) : Int) { p with fds := fds.alloc devNull } := by
    intro n fds hn hle
    have hfile : fileAt { p with fds := fds } n = some devNull := hn.opened n (Nat.lt_succ_self n)
    rw [EStateM.run_modifyGet, dup, hfile, hn.lowestFree hle]
  refine ⟨_, ?_, h₃⟩
  have hassert : ∀ (fd : Nat) (p : Process), (assert_ ((fd : Int) == fd)).run p = .ok () p := by
    intro fd p
    rw [assert_, if_pos (beq_self_eq_true _)]
    rfl
  rw [openStandard, bind_ok hopen]
  refine (bind_ok (hassert 0 _)).trans ?_
  rw [bind_ok (hdup h₁ (by omega))]
  refine (bind_ok (hassert 1 _)).trans ?_
  rw [bind_ok (hdup h₂ (by omega))]
  exact hassert 2 _

/-! ## Umask and signals -/

/-- The umask is what `set_umask()` asked for, in its nine bits, or that of the caller. -/
theorem changeUmask_ok (d : DaemonImpl) (p : Process) :
    ∃ old, d.changeUmask.run p = .ok old { p with
      umask := if d.setUmask_ then d.umask_.toBitVec.setWidth 9 else p.umask } := by
  unfold changeUmask
  split
  · exact ⟨_, rfl⟩
  · exact ⟨0, rfl⟩

/-- `SIGHUP` is ignored before the second `fork`: the exit of the session leader would send
it to the child. -/
theorem ignoreHangup_ok (sys : System) (p : Process) :
    (ignoreHangup sys).run p =
      .ok (p.oldAction sys sighup SigAction.zero) (p.sigaction sys sighup ignoreAction) := rfl

/-- Setting one action for a list of signals. -/
theorem foldl_sigaction (sys : System) (action : SigAction) (sigs : List Nat) (p : Process) :
    ∃ actions, sigs.foldl (fun p sig => p.sigaction sys sig action) p =
        { p with actions := actions } ∧
      ∀ k, actions k =
        if k ∈ sigs ∧ sys.resettable k = true then action else p.actions k := by
  induction sigs generalizing p with
  | nil => exact ⟨p.actions, rfl, fun k => (if_neg fun h => List.not_mem_nil h.1).symm⟩
  | cons sig sigs ih =>
    obtain ⟨actions, hfold, hactions⟩ := ih (p.sigaction sys sig action)
    refine ⟨actions, hfold, fun k => ?_⟩
    rw [hactions k, sigaction_actions]
    by_cases hk : k = sig
    · subst hk
      by_cases hr : sys.resettable k = true
      · simp only [hr, List.mem_cons_self, and_self, if_true, ite_self]
      · simp only [hr, Bool.false_eq_true, and_false, if_false]
    · simp only [List.mem_cons, hk, false_or, false_and, if_false]

/-- Every signal that can be reset is among those that the loop goes through. -/
theorem mem_signals {sys : System} {k : Nat} (h : sys.resettable k = true) :
    k ∈ List.range' 1 (nsig - 1) := by
  rw [System.resettable, Bool.and_eq_true, Bool.and_eq_true, decide_eq_true_eq,
    decide_eq_true_eq] at h
  rw [List.mem_range'_1]
  exact ⟨h.1.1, h.1.2⟩

/-- The loop over the signals, as a whole: it changes actions only, each to the default one
if it can be reset. -/
theorem resetAll_eq (sys : System) (p : Process) :
    ∃ actions, resetAll sys p = { p with actions := actions } ∧
      ∀ k, actions k = if sys.resettable k then defaultAction else p.actions k := by
  obtain ⟨actions, hreset, hactions⟩ :=
    foldl_sigaction sys defaultAction (List.range' 1 (nsig - 1)) p
  refine ⟨actions, hreset, fun k => ?_⟩
  rw [hactions k]
  by_cases hk : sys.resettable k = true
  · rw [if_pos ⟨mem_signals hk, hk⟩, if_pos hk]
  · rw [if_neg fun h => hk h.2, if_neg hk]

/-- Whatever `SIGHUP` was, its handler is restored; or all handlers are reset. -/
theorem settleSignals_ok (d : DaemonImpl) (sys : System) (caller : Process) {p : Process}
    (hactions : p.actions = (caller.sigaction sys sighup ignoreAction).actions) :
    ∃ actions,
      (d.settleSignals sys (caller.oldAction sys sighup SigAction.zero)).run p =
        .ok () { p with actions := actions } ∧
      ∀ k, (actions k).handler =
        if d.resetSignals_ && sys.resettable k then .dfl else (caller.actions k).handler := by
  -- while `SIGHUP` was ignored, all other actions were the caller's
  have hother : ∀ k, ¬ (k = sighup ∧ sys.resettable sighup = true) →
      p.actions k = caller.actions k := by
    intro k hk
    rw [hactions, sigaction_actions, if_neg hk]
  have hhup : sys.resettable sighup = true →
      caller.oldAction sys sighup SigAction.zero = caller.actions sighup :=
    fun hr => if_pos hr
  unfold settleSignals
  cases d.resetSignals_ with
  | true =>
    obtain ⟨actions, hreset, hall⟩ := resetAll_eq sys p
    refine ⟨actions, ?_, fun k => ?_⟩
    · show EStateM.Result.ok () (resetAll sys p) = _
      rw [hreset]
    · rw [hall k, Bool.true_and]
      by_cases hr : sys.resettable k = true
      · rw [if_pos hr, if_pos hr]
        rfl
      · rw [if_neg hr, if_neg hr, hother k]
        rintro ⟨rfl, hhr⟩
        exact hr hhr
  | false =>
    simp only [Bool.false_and, Bool.false_eq_true, if_false, Bool.not_false, Bool.true_and,
      bne_iff_ne]
    split
    case isTrue =>
      refine ⟨(p.sigaction sys sighup (caller.oldAction sys sighup SigAction.zero)).actions,
        rfl, fun k => ?_⟩
      rw [sigaction_actions]
      split
      case isTrue hk => rw [hhup hk.2, hk.1]
      case isFalse hk => rw [hother k hk]
    case isFalse hign =>
      refine ⟨p.actions, rfl, fun k => ?_⟩
      by_cases hk : k = sighup ∧ sys.resettable sighup = true
      · rw [hactions, sigaction_actions, if_pos hk, hk.1, ← hhup hk.2]
        exact (not_not.mp hign).symm
      · rw [hother k hk]

/-! ## The whole of `daemonize_me` -/

/-- **The daemon is the one that was asked for**: whatever the caller's process is like
and whatever becomes of `open(".")`, if the directory can be entered, both forks succeed
and `/dev/null` can be opened, `daemonize_me` returns in a process that is as `d` asks. -/
theorem daemonizeMe_delivers (d : DaemonImpl) (sys : System) (caller : Process) (dir : Dir)
    (hfds : d.closeFds_ = false) (hdir : d.requestedDir sys caller = .ok dir)
    (hfork₁ : sys.firstFork = none) (hfork₂ : sys.secondFork = none)
    (hnull : sys.openDevNull = true) :
    ∃ q, (d.daemonizeMe sys).run caller = .ok () q ∧ Delivered d sys caller dir q := by
  obtain ⟨oldWorkingDir, fds₁, henter, hsaves⟩ := enterWorkingDirectory_ok hdir
  obtain ⟨oldUmask, humask⟩ := changeUmask_ok d
    { caller with fds := fds₁, cwd := dir, groupLeader := true, sessionLeader := true,
                  controlTerminal := none }
  -- the second child
  let p₂ : Process := { caller with
    fds := fds₁
    cwd := dir
    umask := if d.setUmask_ then d.umask_.toBitVec.setWidth 9 else caller.umask
    actions := (caller.sigaction sys sighup ignoreAction).actions
    groupLeader := false
    sessionLeader := false
    controlTerminal := none }
  have hsaves₂ : Saves oldWorkingDir p₂.fds caller.fds := hsaves
  obtain ⟨oldWorkingDir', fds₂, hdrop, hheld, hfds₂⟩ := dropWorkingDir_ok hsaves₂
  obtain ⟨actions, hsettle, hhandlers⟩ :=
    settleSignals_ok d sys caller (p := { p₂ with fds := fds₂ }) rfl
  have hclose := closeOpenFiles_ok hfds sys { p₂ with fds := fds₂, actions := actions }
  obtain ⟨fds₃, hopen, hstandard⟩ := openStandard_ok hnull
    (p := { p₂ with fds := ((fds₂.clear 0).clear 1).clear 2, actions := actions })
    (standard_closed fds₂)
  refine ⟨{ p₂ with fds := fds₃, actions := actions }, ?_, ?_⟩
  · -- the first child becomes a session leader, and the second child goes on
    rw [daemonizeMe, bind_ok henter, hfork₁, bind_ok (forkOr_none _ _)]
    refine (bind_ok (EStateM.run_modify _ _)).trans ?_
    refine (bind_ok humask).trans ?_
    rw [bind_ok (ignoreHangup_ok sys _), hfork₂, bind_ok (forkOr_none _ _)]
    refine (bind_ok hdrop).trans ?_
    refine (bind_ok hsettle).trans ?_
    refine (bind_ok hclose).trans ?_
    rw [bind_ok hopen]
    exact destroy_of_not_held hheld _
  · constructor
    · exact fun k hk => hstandard.opened k (by omega)
    · exact fun k hk => (hstandard.others k hk).trans (hfds₂ k)
    · rfl
    · rfl
    · exact hhandlers
    · rfl
    · rfl

/-- A caller without standard input and standard error, that ignores `SIGHUP`. -/
def nohupCaller : Process where
  fds := [none, some (.other 7), none, some (.directory "/home")]
  cwd := "/home"
  umask := 0o22#9
  actions := fun sig => if sig = sighup then ignoreAction else SigAction.zero
  groupLeader := true
  sessionLeader := false
  controlTerminal := some "/dev/tty1"

/-- Everything succeeds. -/
def willingSystem : System where
  openDot := true
  openDevNull := true
  opendir := true
  resolve := fun _ path => .ok path
  firstFork := none
  secondFork := none
  reserved := fun sig => sig ∈ [9, 19, 32, 33]
  procSelfFd := fun _ => []
  indeterminate := 0

theorem daemonizeMe_delivers_nohupCaller :
    ∃ q, ((((create 0).setUmask 0o27).setWorkingDirectory "/").daemonizeMe willingSystem).run
        nohupCaller = .ok () q ∧
      Delivered (((create 0).setUmask 0o27).setWorkingDirectory "/") willingSystem nohupCaller
        "/" q :=
  daemonizeMe_delivers _ willingSystem nohupCaller "/" rfl rfl rfl rfl rfl

end DaemonImpl

end LomiriApi
