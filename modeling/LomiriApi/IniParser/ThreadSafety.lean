import LomiriApi.IniParser.Store
import LomiriApi.IniParser.Threads
import LomiriApi.Lib.Completion

/-!
# `IniParser` is thread-safe

Any number of threads call methods of any number of parsers, and the statements of the
calls interleave in any order that `parser_mutex` admits. When no call is in progress:

- `parsers_refine_files`: the calls have an order in which they could have been executed
  one after the other, and for each parser the write methods among them are a run of
  `IniFile.step`;
- `parsers_are_stores`: so each parser, with its file, is the store of
  `IniParser/Store.lean`, whoever the callers are.

The parsers have different files; the mutex does nothing for two parsers that save to
the same file.
-/

namespace LomiriApi

open Lib

namespace Parsers

variable {n : Nat} {K D F τ : Type}

/-- Threads, parsers and calls in progress. -/
abbrev State (τ : Type) (n : Nat) (K D F : Type) :=
  Locks.State τ Unit (Parsers n K D) (Call n F) (Answer F)

/-- A move of a thread. -/
abbrev Label (τ : Type) (n : Nat) (F : Type) := Locks.Label τ Unit (Call n F) (Answer F)

/-- The calls and answers of a run, in order. -/
def events (ls : List (Label τ n F)) : List (Locks.Event τ (Call n F) (Answer F)) :=
  ls.filterMap Locks.Label.event

/-- No two parsers have the same file. -/
def OwnFiles (s : Parsers n K D) : Prop := Function.Injective fun i => (s.parser i).filename

/-- The write methods of the parser `i` that a call is. -/
def writesTo (i : Fin n) : τ × Call n F × Answer F → List (WriteOp F)
  | (_, .write j op, r) => if j = i ∧ r.isCrash = false then [op] else []
  | (_, .read _ _, _) => []

/-- What is written to a parser was called on this parser. -/
theorem mem_writesTo {i : Fin n} {e : τ × Call n F × Answer F} {op : WriteOp F}
    (h : op ∈ writesTo i e) : e.2.1 = .write i op := by
  obtain ⟨t, c, r⟩ := e
  cases c with
  | read j rop => cases h
  | write j wop =>
    change op ∈ (if j = i ∧ r.isCrash = false then [wop] else []) at h
    split at h
    case isTrue hj => rw [List.mem_singleton.mp h, hj.1]
    case isFalse hj => cases h

/-! ## One call -/

section Calls

variable {G : GKeyFile K D F}

/-- A set method is lost if it has crashed, and only then: if the length of a vector does
not fit an `int`. -/
theorem isCrash_void {r : CallResult Unit} :
    (Answer.void r : Answer F).isCrash = true ↔ r = .crash := by
  cases r <;> simp [Answer.isCrash]

/-- The same of the methods that return whether they removed something. -/
theorem isCrash_boolean {r : CallResult Bool} :
    (Answer.boolean r : Answer F).isCrash = true ↔ r = .crash := by
  cases r <;> simp [Answer.isCrash]

/-- A call that is not lost. -/
theorem wrote_step {α : Type} {s : IniFile K D} {toAnswer : CallResult α → Answer F}
    (hcrash : ∀ {r}, (toAnswer r).isCrash = true ↔ r = .crash) {r : IniParser K × CallResult α}
    (h : (wrote s toAnswer r).2.isCrash = false) :
    s.wrote r = some (wrote s toAnswer r).1 := by
  obtain ⟨p, a⟩ := r
  cases a with
  | ok a => rfl
  | throws e => rfl
  | crash => exact absurd (hcrash.mpr rfl) (by simpa [wrote] using h)

/-- A write method that is not lost is a step of the parser and its file. -/
theorem write_step {s : IniFile K D} {op : WriteOp F} (h : (write G s op).2.isCrash = false) :
    IniFile.step G s op = some (write G s op).1 := by
  cases op with
  | setString | setLocaleString | setBoolean | setInt | setDouble | setStringArray
  | setLocaleStringArray | setBooleanArray | setIntArray | setDoubleArray =>
    exact wrote_step isCrash_void h
  | removeGroup | removeKey => exact wrote_step isCrash_boolean h
  | sync saved => rfl

/-- A set method that is lost has changed nothing. -/
theorem setValue_lost {α : Type} {p : IniParser K} {set : K → α → K} {arg : Option α}
    (h : (Answer.void (p.setValue set arg).2 : Answer F).isCrash = true) :
    (p.setValue set arg).1 = p := by
  cases arg with
  | none => rfl
  | some a => cases h

/-- `remove_group` and `remove_key` report an error or return. -/
theorem removed_ne_crash {p : IniParser K} {pre group : Text} {r : K × Bool × Option GError} :
    (p.removed pre group r).2 ≠ .crash := by
  obtain ⟨k, rval, e⟩ := r
  cases e <;> simp [IniParser.removed, inspectError]

/-- `sync` reports an error or returns. -/
theorem sync_ne_crash {p : IniParser K} {file : D} {saved : Option GError} :
    (p.sync G file saved).2.2 ≠ .crash := by
  unfold IniParser.sync
  split
  · split <;> simp
  · simp

/-- A write method that is lost has changed nothing. It is lost before GLib is called, so
the other threads see the parser as it was. -/
theorem write_lost {s : IniFile K D} {op : WriteOp F} (h : (write G s op).2.isCrash = true) :
    (write G s op).1 = s := by
  cases op with
  | setString | setLocaleString | setBoolean | setInt | setDouble | setStringArray
  | setLocaleStringArray | setBooleanArray | setIntArray | setDoubleArray =>
    exact congrArg (fun p => { s with parser := p }) (setValue_lost h)
  | removeGroup | removeKey => exact absurd (isCrash_boolean.mp h) removed_ne_crash
  | sync saved => exact absurd (isCrash_void.mp h) sync_ne_crash

/-- A parser keeps its file. -/
theorem write_filename (s : IniFile K D) (op : WriteOp F) :
    (write G s op).1.parser.filename = s.parser.filename := by
  have hset : ∀ {α : Type} (set : K → α → K) (arg : Option α),
      (s.parser.setValue set arg).1.filename = s.parser.filename := by
    intro α set arg
    cases arg <;> rfl
  cases op with
  | setString | setLocaleString | setBoolean | setInt | setDouble | setStringArray
  | setLocaleStringArray | setBooleanArray | setIntArray | setDoubleArray => exact hset _ _
  | removeGroup | removeKey => rfl
  | sync saved =>
    show (s.parser.sync G s.file saved).1.filename = s.parser.filename
    unfold IniParser.sync
    split
    · split <;> rfl
    · rfl

end Calls

/-! ## One parser among several -/

section Put

variable {s : Parsers n K D} {i j : Fin n} {t : IniFile K D}

/-- A call changes no file name, of whichever parser. -/
theorem put_filename (h : t.parser.filename = (s.parser i).filename) (j : Fin n) :
    ((s.put i t).parser j).filename = (s.parser j).filename := by
  by_cases hj : j = i
  · subst hj
    simpa [put] using h
  · simp [put, hj]

/-- The parser that was called, and its file, are what the call made of them. -/
theorem iniFile_put_self (h : t.parser.filename = (s.parser i).filename) :
    (s.put i t).iniFile i = t := by
  simp [put, iniFile, h]

/-- The other parsers and their files stay as they are. -/
theorem iniFile_put_ne (hown : s.OwnFiles) (h : j ≠ i) : (s.put i t).iniFile j = s.iniFile j := by
  have hname : (s.parser j).filename ≠ (s.parser i).filename := fun heq => h (hown heq)
  simp [put, iniFile, h, hname]

/-- That the parsers have files of their own stays true, since no name changes. -/
theorem OwnFiles.put (hown : s.OwnFiles) (h : t.parser.filename = (s.parser i).filename) :
    (s.put i t).OwnFiles := by
  intro j k hjk
  exact hown ((put_filename h j).symm.trans (hjk.trans (put_filename h k)))

end Put

/-! ## Calls of the store -/

section Stores

variable [DecidableEq τ] {G : GKeyFile K D F}

/-- Every write method that has been answered is a call that the store accepts. -/
def AllAccepted (G : GKeyFile K D F) (es : List (Locks.Event τ (Call n F) (Answer F))) : Prop :=
  ∀ t i op r, .answer t (.write i op) r ∈ es → ∃ sop : StoreOp, sop.Accepted G ∧ sop.writeOp = op

/-- The calls of the store, for the write methods of one parser. -/
theorem exists_storeOps {es : List (Locks.Event τ (Call n F) (Answer F))}
    (hall : AllAccepted G es) {cs : List (τ × Call n F × Answer F)}
    (horder : ∀ t, Locks.ofThread t cs = Locks.answersOf t es) (i : Fin n) :
    ∃ ops : List StoreOp, ops.map StoreOp.writeOp = cs.flatMap (writesTo i) ∧
      ∀ op ∈ ops, op.Accepted G := by
  have haccepted : ∀ op ∈ cs.flatMap (writesTo i),
      ∃ sop : StoreOp, sop.Accepted G ∧ sop.writeOp = op := by
    intro op hop
    obtain ⟨⟨t, c, r⟩, he, hmem⟩ := List.mem_flatMap.mp hop
    obtain rfl : c = .write i op := mem_writesTo hmem
    exact hall t i op r (Locks.answered_of_mem horder he)
  have hsome : Nonempty StoreOp := ⟨.sync none⟩
  choose! storeOp haccept heq using haccepted
  refine ⟨(cs.flatMap (writesTo i)).map storeOp, ?_, ?_⟩
  · rw [List.map_map]
    exact (List.map_congr_left heq).trans (List.map_id _)
  · intro op hop
    obtain ⟨wop, hwop, rfl⟩ := List.mem_map.mp hop
    exact haccept wop hwop

end Stores

/-! ## Whole runs -/

section Runs

variable [DecidableEq F] {G : GKeyFile K D F}

/-- **One call.** For each parser it is at most one step. -/
theorem seqStep_files {m m' : Unit → Parsers n K D} {e : τ × Call n F × Answer F}
    (hown : (m ()).OwnFiles) (hstep : Locks.seqStep (spec G) m e = some m') (i : Fin n) :
    run (IniFile.step G) ((m ()).iniFile i) (writesTo i e) = some ((m' ()).iniFile i) ∧
      (m' ()).OwnFiles := by
  obtain ⟨t, c, r⟩ := e
  unfold Locks.seqStep at hstep
  split at hstep
  case isFalse h => cases hstep
  case isTrue hr =>
    obtain rfl := Option.some.inj hstep
    cases c with
    | read j op => exact ⟨rfl, hown⟩
    | write j op =>
      obtain rfl : (write G ((m ()).iniFile j) op).2 = r := hr
      have hname : (write G ((m ()).iniFile j) op).1.parser.filename = ((m ()).parser j).filename :=
        write_filename _ op
      refine ⟨?_, hown.put hname⟩
      show run (IniFile.step G) _ (if j = i ∧ _ then [op] else [])
        = some (((m ()).put j (write G ((m ()).iniFile j) op).1).iniFile i)
      by_cases hj : j = i
      · subst hj
        rw [iniFile_put_self hname]
        cases hcrash : (write G ((m ()).iniFile j) op).2.isCrash with
        | false =>
          rw [if_pos ⟨rfl, rfl⟩]
          exact run_cons_some (write_step hcrash) []
        | true =>
          rw [if_neg (by simp), write_lost hcrash]
          rfl
      · rw [if_neg fun h => hj h.1, iniFile_put_ne hown (Ne.symm hj)]
        rfl

/-- For each parser, calls that are executed one after the other are a run. -/
theorem seqRun_files {m m' : Unit → Parsers n K D} {cs : List (τ × Call n F × Answer F)}
    (hown : (m ()).OwnFiles) (hrun : run (Locks.seqStep (spec G)) m cs = some m') (i : Fin n) :
    run (IniFile.step G) ((m ()).iniFile i) (cs.flatMap (writesTo i))
      = some ((m' ()).iniFile i) := by
  obtain ⟨s, hs, rfl, -⟩ := run_simulates
    (R := fun m s => s = (m ()).iniFile i ∧ (m ()).OwnFiles) (C := fun _ => True)
    (g := writesTo i)
    (fun m m' s e _ ⟨hs, hown⟩ hstep => by
      subst hs
      obtain ⟨hfiles, hown'⟩ := seqStep_files hown hstep i
      exact ⟨_, hfiles, rfl, hown'⟩)
    (fun _ _ => trivial) ⟨rfl, hown⟩ hrun
  exact hs

variable [DecidableEq τ]

/-- One move of one thread. -/
def step (G : GKeyFile K D F) : State τ n K D F → Label τ n F → Option (State τ n K D F) :=
  Locks.step (code G)

/-- **Threads refine one parser and its file.** In every state of every run the calls in
progress can return without any thread calling anew. When no call is in progress, the
calls have an order, each thread's own among it and the order of real time, in which they
could have been executed in one piece and one after the other, with the same answers and
the same state at the end; and for each parser, the write methods in this order are a run
of the parser and its file. -/
theorem parsers_refine_files [Fintype τ] {m : Parsers n K D} (hown : m.OwnFiles)
    {ls : List (Label τ n F)} {s : State τ n K D F}
    (hrun : run (step G) (Locks.State.initial fun _ => m) ls = some s) :
    (∃ ls' s', (∀ l ∈ ls', l.isInvoke = false) ∧ run (step G) s ls' = some s' ∧
      s'.Quiescent) ∧
    (s.Quiescent → ∃ cs : List (τ × Call n F × Answer F),
      run (Locks.seqStep (spec G)) (fun _ => m) cs = some s.mem ∧
      (∀ t, Locks.ofThread t cs = Locks.answersOf t (events ls)) ∧
      Locks.InRealTime (events ls) cs ∧
      ∀ i, run (IniFile.step G) (m.iniFile i) (cs.flatMap (writesTo i))
        = some ((s.mem ()).iniFile i)) := by
  constructor
  · have hc : Locks.Coherent (code G) s :=
      Locks.coherent_run (Locks.coherent_initial (code G) _) hrun
    obtain ⟨s', ⟨ls', hquiet, hrun'⟩, hq⟩ := Locks.can_complete_all hc
    exact ⟨ls', s', hquiet, hrun', hq⟩
  · intro hq
    obtain ⟨cs, hcs, horder, hreal⟩ := Locks.sequential_calls (body_run G) hrun hq
    exact ⟨cs, hcs, horder, hreal, seqRun_files hown hcs⟩

end Runs

/-- The first of two parsers. -/
def firstParser : Fin 2 := ⟨0, Nat.zero_lt_two⟩

/-- Two parsers with a file each. -/
def twoFiles : Parsers 2 ListKeyFile ListKeyFile where
  parser i := if i = firstParser then IniFile.twoGroupsParser else IniParser.oneList
  file name := if name = "two.ini" then IniFile.twoGroups else IniParser.oneList.k

/-- One thread sets a value while another waits for the mutex, to save it. -/
def setAndSync : List (Label Bool 2 Unit) :=
  let set : Call 2 Unit := .write firstParser (.setInt "first" "count" 2)
  let sync : Call 2 Unit := .write firstParser (.sync none)
  [.invoke true set, .invoke false sync, .lock true (), .enter true, .exec true, .exec true,
    .finish true, .unlock true (), .lock false (), .respond true set (.void (.ok ())),
    .enter false, .exec false, .exec false, .exec false, .finish false, .unlock false (),
    .respond false sync (.void (.ok ()))]

theorem setAndSync_isSome :
    (run (step listKeyFile) (Locks.State.initial fun _ => twoFiles) setAndSync).isSome = true := by
  decide

/-- The end of the run. -/
def setAndSyncEnd : State Bool 2 ListKeyFile ListKeyFile Unit :=
  (run (step listKeyFile) (Locks.State.initial fun _ => twoFiles) setAndSync).get setAndSync_isSome

theorem setAndSync_end :
    run (step listKeyFile) (Locks.State.initial fun _ => twoFiles) setAndSync
      = some setAndSyncEnd := (Option.some_get setAndSync_isSome).symm

theorem setAndSyncEnd_quiescent : setAndSyncEnd.Quiescent := by
  intro t
  cases t <;> rfl

theorem twoFiles_ownFiles : twoFiles.OwnFiles := by
  intro i j h
  revert i j
  decide

/-- What the two threads did can be done one call after the other, with the same answers
and the same file. -/
theorem parsers_refine_files_setAndSync :
    ∃ cs : List (Bool × Call 2 Unit × Answer Unit),
      run (Locks.seqStep (spec listKeyFile)) (fun _ => twoFiles) cs = some setAndSyncEnd.mem ∧
      (∀ t, Locks.ofThread t cs = Locks.answersOf t (events setAndSync)) ∧
      Locks.InRealTime (events setAndSync) cs ∧
      ∀ i, run (IniFile.step listKeyFile) (twoFiles.iniFile i) (cs.flatMap (writesTo i))
        = some ((setAndSyncEnd.mem ()).iniFile i) :=
  (parsers_refine_files twoFiles_ownFiles setAndSync_end).2 setAndSyncEnd_quiescent

/-! ## Parsers as stores -/

/-- **Parsers are stores, whoever calls them.** Several threads set, remove and `sync` on
parsers that have just been loaded, each from a file of its own. When no call is in
progress, their calls have an order, each thread's own among it and the order of real
time, in which every call had the answer that it gave; and each parser and its file are in
the state of a store that has got the calls for it in this order: every pair reads as what
was set last. -/
theorem parsers_are_stores [DecidableEq F] [DecidableEq τ] {G : GKeyFile K D F}
    {languages : List Text} (laws : KeyFileLaws G)
    (locales : LocaleLaws G languages) (store : StoreLaws G) (removal : RemovalLaws G)
    {m : Parsers n K D} (hown : m.OwnFiles)
    (hload : ∀ i, IniParser.load G (m.parser i).filename (m.iniFile i).file = .ok (m.parser i))
    {ls : List (Label τ n F)} {s : State τ n K D F}
    (hrun : run (step G) (Locks.State.initial fun _ => m) ls = some s) (hq : s.Quiescent)
    (hall : AllAccepted G (events ls)) :
    ∃ cs : List (τ × Call n F × Answer F),
      run (Locks.seqStep (spec G)) (fun _ => m) cs = some s.mem ∧
      (∀ t, Locks.ofThread t cs = Locks.answersOf t (events ls)) ∧
      Locks.InRealTime (events ls) cs ∧
      ∀ i, ∃ ops : List StoreOp, ops.map StoreOp.writeOp = cs.flatMap (writesTo i) ∧
        (ops.foldl Store.apply Store.fresh).Shows G (m.parser i) ((s.mem ()).iniFile i) := by
  obtain ⟨cs, hcs, horder, hreal⟩ := Locks.sequential_calls (body_run G) hrun hq
  refine ⟨cs, hcs, horder, hreal, fun i => ?_⟩
  obtain ⟨ops, hops, haccepted⟩ := exists_storeOps hall horder i
  obtain ⟨t, ht, hshow⟩ :=
    Store.shows_run laws locales store removal haccepted (Store.shows_fresh (hload i))
  refine ⟨ops, hops, ?_⟩
  -- the store's run is the run of the parser
  have hsame := seqRun_files hown hcs i
  rw [← hops] at hsame
  obtain rfl := Option.some.inj (ht.symm.trans hsame)
  exact hshow

/-- The two calls of the run are operations that the store accepts. -/
theorem setAndSync_accepted : AllAccepted listKeyFile (events setAndSync) := by
  intro t i op r hmem
  simp only [events, setAndSync, List.filterMap, Locks.Label.event, List.mem_cons,
    List.not_mem_nil, Locks.Event.answer.injEq, Call.write.injEq, reduceCtorEq, or_false,
    false_or] at hmem
  obtain ⟨-, ⟨-, rfl⟩, -⟩ | ⟨-, ⟨-, rfl⟩, -⟩ := hmem
  · exact ⟨.set "first" "count" (.int 2), ⟨by decide, trivial, trivial⟩, rfl⟩
  · exact ⟨.sync none, trivial, rfl⟩

/-- The same run is one of operations on two abstract stores. -/
theorem parsers_are_stores_setAndSync :
    ∃ cs : List (Bool × Call 2 Unit × Answer Unit),
      run (Locks.seqStep (spec listKeyFile)) (fun _ => twoFiles) cs = some setAndSyncEnd.mem ∧
      (∀ t, Locks.ofThread t cs = Locks.answersOf t (events setAndSync)) ∧
      Locks.InRealTime (events setAndSync) cs ∧
      ∀ i, ∃ ops : List StoreOp, ops.map StoreOp.writeOp = cs.flatMap (writesTo i) ∧
        (ops.foldl Store.apply Store.fresh).Shows listKeyFile (twoFiles.parser i)
          ((setAndSyncEnd.mem ()).iniFile i) := by
  refine parsers_are_stores listKeyFile_laws listKeyFile_localeLaws listKeyFile_storeLaws
    listKeyFile_removalLaws twoFiles_ownFiles ?_ setAndSync_end setAndSyncEnd_quiescent
    setAndSync_accepted
  exact Fin.forall_fin_two.mpr ⟨rfl, rfl⟩

end Parsers

end LomiriApi
