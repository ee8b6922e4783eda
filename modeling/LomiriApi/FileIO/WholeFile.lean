import LomiriApi.FileIO.Basic

/-!
# What `read_text_file` and `read_binary_file` return

- `ClosedOnce`: the descriptor that was opened is closed once, and no other.
- `readFile_cases`: `read_file` returns what one `read` has transferred if that is as much
  as was asked for, and throws `FileException` otherwise; either way it closes the file.
- `readFile_correct_iff`: so the whole file is returned exactly where it is empty or the
  first `read` transfers it all.
-/

namespace LomiriApi

open Lib Process

namespace FileIO

/-- The descriptor that was opened, if any was, has been closed once. The table is the one
before, and `close` has been called no more often than needed. -/
structure ClosedOnce (file : File) (s q : IoState) : Prop where
  fds : ∀ k, q.fds.lookup k = s.fds.lookup k
  closes : q.closes = s.closes ++ if file.opens.isOk then [(s.fds.lowestFree : Int)] else []

/-- A regular file that the system lets be read, and whose status gives the length of its
content. Files whose size is made up, as under `/proc`, are not meant. -/
structure Readable (file : File) : Prop where
  opens : file.opens = .ok ()
  status : file.status = .ok ⟨true, file.content.length⟩
  transfer : ∀ n e, file.transfer n ≠ .error e

/-- Not a regular file, or one of the calls fails. -/
def Fails (file : File) : Prop :=
  (∃ e, file.opens = .error e) ∨ (∃ e, file.status = .error e) ∨
    ∃ st, file.status = .ok st ∧
      (st.isReg = false ∨ (0 < st.size ∧ ∃ e, file.transfer st.size = .error e))

/-- The first `read` transfers as many bytes as the status says. The code calls `read` once
only, so this is what everything depends on. -/
structure Complete (file : File) (st : Stat) : Prop where
  opens : file.opens = .ok ()
  status : file.status = .ok st
  isReg : st.isReg = true
  transfer : st.size = 0 ∨ file.transfer st.size = .ok st.size

def stateOf {α : Type} : EStateM.Result Thrown IoState α → IoState
  | .ok _ q => q
  | .error _ q => q

/-- The call that came back as `r` has thrown `FileException`, and closed the file. -/
def ThrowsFileException (file : File) (s : IoState)
    (r : EStateM.Result Thrown IoState Bytes) : Prop :=
  ∃ reason err q, r = .error (.fileException reason err) q ∧ ClosedOnce file s q

/-- What a call that came back as `r` should have done: return all of a readable file,
throw if something fails, and close the file once either way. -/
structure Correct (file : File) (s : IoState) (r : EStateM.Result Thrown IoState Bytes) :
    Prop where
  whole : Readable file → ∃ q, r = .ok file.content q
  throws : Fails file → ∃ reason err q, r = .error (.fileException reason err) q
  closes : ClosedOnce file s (stateOf r)

/-! ## Sequencing -/

theorem bind_ok {α β : Type} {x : Io α} {f : α → Io β} {s q : IoState} {a : α}
    (h : x.run s = .ok a q) : (x >>= f).run s = (f a).run q := by
  rw [EStateM.run_bind, h]

theorem getFd_ofResource (n : Int) (s : IoState) :
    (getFd (.ofResource n closeFd)).run s = .ok n s := rfl

/-! ## After `open` -/

/-- The state while the file is open. -/
def opened (filename : Text) (s : IoState) : IoState :=
  { s with fds := s.fds.alloc (.file (cStr filename) .rdonly) }

theorem openRdonly_ok {fs : FileSystem} {filename : Text}
    (h : (fs (cStr filename)).opens = .ok ()) (s : IoState) :
    openRdonly fs filename s = ((s.fds.lowestFree : Int), opened filename s) := by
  unfold openRdonly
  rw [h]
  rfl

theorem fileAt_opened (fs : FileSystem) (filename : Text) (s : IoState) :
    fileAt fs (opened filename s) s.fds.lowestFree = some (fs (cStr filename)) := by
  have hlookup : (opened filename s).fds.lookup s.fds.lowestFree =
      some (.file (cStr filename) .rdonly) := by
    rw [opened, Slots.lookup_alloc, if_pos rfl]
  show fileAt fs (opened filename s) (Int.ofNat s.fds.lowestFree) = _
  simp only [fileAt, hlookup]

/-- Destroying the owner closes the file, whatever `errno` is by then. -/
theorem destroy_opened {fs : FileSystem} {filename : Text}
    (h : (fs (cStr filename)).opens = .ok ()) (s : IoState) (errno : Int) :
    ∃ q, (destroy (.ofResource s.fds.lowestFree closeFd)).run
        { opened filename s with errno := errno } = .ok () q ∧
      ClosedOnce (fs (cStr filename)) s q := by
  have hne : ((s.fds.lowestFree : Int) != -1) = true := by
    rw [bne_iff_ne]
    omega
  have hclose : ∀ t : IoState, closeFd s.fds.lowestFree t = close s.fds.lowestFree t :=
    fun t => if_pos hne
  refine ⟨close s.fds.lowestFree { opened filename s with errno := errno }, ?_, ?_, ?_⟩
  · show EStateM.Result.ok () (closeFd s.fds.lowestFree _) = _
    rw [hclose]
  · exact fun k => s.fds.lookup_clear_alloc _ k
  · rw [h]
    rfl

theorem unwind_opened {fs : FileSystem} {filename : Text}
    (h : (fs (cStr filename)).opens = .ok ()) (s : IoState) (errno : Int) (reason : Text)
    (err : Int) :
    ThrowsFileException (fs (cStr filename)) s
      ((unwind (.ofResource s.fds.lowestFree closeFd) (.fileException reason err) :
        Io Bytes).run { opened filename s with errno := errno }) := by
  obtain ⟨q, hrun, hclosed⟩ := destroy_opened h s errno
  refine ⟨reason, err, q, ?_, hclosed⟩
  rw [unwind, bind_ok hrun]
  rfl

/-! ## The exits -/

section Cases

variable (strerror : Int → Text) {fs : FileSystem} {filename : Text}

theorem readFile_open_fails {e : Int} (h : (fs (cStr filename)).opens = .error e) (s : IoState) :
    ThrowsFileException (fs (cStr filename)) s ((readFile strerror fs filename).run s) := by
  have hopen : (modifyGet (openRdonly fs filename) : Io Int).run s =
      .ok (-1) { s with errno := e } := by
    rw [EStateM.run_modifyGet]
    unfold openRdonly
    rw [h]
  -- the deleter leaves -1 alone
  refine ⟨"cannot open \"" ++ filename ++ "\": " ++ strerror e, e, { s with errno := e }, ?_,
    fun k => rfl, ?_⟩
  · rw [readFile, bind_ok hopen]
    rfl
  · rw [h]
    exact (List.append_nil _).symm

theorem readFile_opened (h : (fs (cStr filename)).opens = .ok ()) (s : IoState) :
    (readFile strerror fs filename).run s =
      (readOpened strerror fs filename (.ofResource s.fds.lowestFree closeFd)).run
        (opened filename s) := by
  have hopen : (modifyGet (openRdonly fs filename) : Io Int).run s =
      .ok (s.fds.lowestFree : Int) (opened filename s) := by
    rw [EStateM.run_modifyGet, openRdonly_ok h]
  have hne : ((s.fds.lowestFree : Nat) : Int) ≠ -1 := by omega
  rw [readFile, bind_ok hopen]
  refine (bind_ok (getFd_ofResource _ _)).trans ?_
  rw [if_neg hne]

/-- `fstat` fails. -/
theorem readOpened_status_fails (h : (fs (cStr filename)).opens = .ok ()) {e : Int}
    (hstatus : (fs (cStr filename)).status = .error e) (s : IoState) :
    ThrowsFileException (fs (cStr filename)) s
      ((readOpened strerror fs filename (.ofResource s.fds.lowestFree closeFd)).run
        (opened filename s)) := by
  have hfstat : (modifyGet (fstat fs s.fds.lowestFree) : Io (Option Stat)).run
      (opened filename s) = .ok none { opened filename s with errno := e } := by
    rw [EStateM.run_modifyGet, fstat, fileAt_opened]
    simp only [hstatus]
  rw [readOpened, bind_ok (getFd_ofResource _ _), bind_ok hfstat]
  exact unwind_opened h s e _ _

/-- `fstat` succeeds. -/
theorem readOpened_status (filename : Text) {st : Stat}
    (hstatus : (fs (cStr filename)).status = .ok st) (s : IoState) :
    (readOpened strerror fs filename (.ofResource s.fds.lowestFree closeFd)).run
        (opened filename s) =
      (if !st.isReg then
        unwind (.ofResource s.fds.lowestFree closeFd)
          (.fileException ("\"" ++ filename ++ "\" is not a regular file") 0)
      else
        readRegular strerror fs filename (.ofResource s.fds.lowestFree closeFd) st.size).run
          (opened filename s) := by
  have hfstat : (modifyGet (fstat fs s.fds.lowestFree) : Io (Option Stat)).run
      (opened filename s) = .ok (some st) (opened filename s) := by
    rw [EStateM.run_modifyGet, fstat, fileAt_opened]
    simp only [hstatus]
  rw [readOpened, bind_ok (getFd_ofResource _ _), bind_ok hfstat]

/-- One `read` has transferred everything that was asked for, or there is nothing to
read. -/
theorem readRegular_complete (h : (fs (cStr filename)).opens = .ok ()) {size : Nat}
    (htransfer : size = 0 ∨ (fs (cStr filename)).transfer size = .ok size) (s : IoState) :
    ∃ q, (readRegular strerror fs filename (.ofResource s.fds.lowestFree closeFd) size).run
        (opened filename s) = .ok ((fs (cStr filename)).content.take size) q ∧
      ClosedOnce (fs (cStr filename)) s q := by
  obtain ⟨q, hdestroy, hclosed⟩ := destroy_opened h s (opened filename s).errno
  refine ⟨q, ?_, hclosed⟩
  unfold readRegular
  by_cases hsize : size = 0
  · subst hsize
    rw [if_pos rfl]
    exact bind_ok hdestroy
  · have hread : (modifyGet (read fs s.fds.lowestFree (List.replicate size 0) size) :
        Io (Int × Bytes)).run (opened filename s) =
          .ok ((size : Int), (fs (cStr filename)).content.take size) (opened filename s) := by
      rw [EStateM.run_modifyGet, read, fileAt_opened]
      simp only [htransfer.resolve_left hsize, List.drop_replicate, Nat.sub_self,
        List.replicate_zero, List.append_nil]
    rw [if_neg hsize, bind_ok (getFd_ofResource _ _), bind_ok hread]
    simp only [ne_eq, not_true_eq_false, if_false]
    exact bind_ok hdestroy

/-- `read` fails, or transfers less. -/
theorem readRegular_short (h : (fs (cStr filename)).opens = .ok ()) {size : Nat}
    (hsize : size ≠ 0) (htransfer : (fs (cStr filename)).transfer size ≠ .ok size)
    (s : IoState) :
    ThrowsFileException (fs (cStr filename)) s
      ((readRegular strerror fs filename (.ofResource s.fds.lowestFree closeFd) size).run
        (opened filename s)) := by
  -- what `read` returns is not the size, and only `errno` may have changed
  obtain ⟨count, buf, errno, hread, hcount⟩ : ∃ count buf errno,
      (modifyGet (read fs s.fds.lowestFree (List.replicate size 0) size) :
        Io (Int × Bytes)).run (opened filename s) =
          .ok (count, buf) { opened filename s with errno := errno } ∧ count ≠ (size : Int) := by
    rw [EStateM.run_modifyGet, read, fileAt_opened]
    cases ht : (fs (cStr filename)).transfer size with
    | error e => exact ⟨-1, List.replicate size 0, e, by simp only [ht], by omega⟩
    | ok n =>
      refine ⟨n, (fs (cStr filename)).content.take n ++ (List.replicate size 0).drop n,
        (opened filename s).errno, by simp only [ht], fun heq => htransfer ?_⟩
      rw [ht, Int.ofNat_inj.mp heq]
  unfold readRegular
  rw [if_neg hsize, bind_ok (getFd_ofResource _ _), bind_ok hread]
  simp only [if_pos hcount]
  exact unwind_opened h s errno _ _

/-- Everything that can come of `read_file`. The exits of the code are taken one after the
other: `open`, `fstat`, the check for a regular file, and `read`. -/
theorem readFile_cases (fs : FileSystem) (filename : Text) (s : IoState) :
    (∃ st q, Complete (fs (cStr filename)) st ∧
      (readFile strerror fs filename).run s =
        .ok ((fs (cStr filename)).content.take st.size) q ∧
      ClosedOnce (fs (cStr filename)) s q) ∨
    ((∀ st, ¬ Complete (fs (cStr filename)) st) ∧
      ThrowsFileException (fs (cStr filename)) s ((readFile strerror fs filename).run s)) := by
  cases hopen : (fs (cStr filename)).opens with
  | error e =>
    refine .inr ⟨fun st hcomplete => ?_, readFile_open_fails strerror hopen s⟩
    cases hopen.symm.trans hcomplete.opens
  | ok u =>
    rw [readFile_opened strerror hopen]
    cases hstatus : (fs (cStr filename)).status with
    | error e =>
      refine .inr ⟨fun st hcomplete => ?_, readOpened_status_fails strerror hopen hstatus s⟩
      cases hstatus.symm.trans hcomplete.status
    | ok st =>
      rw [readOpened_status strerror filename hstatus]
      cases hreg : st.isReg with
      | false =>
        refine .inr ⟨fun st' hcomplete => ?_, ?_⟩
        · obtain rfl := Except.ok.inj (hstatus.symm.trans hcomplete.status)
          cases hreg.symm.trans hcomplete.isReg
        · exact unwind_opened hopen s (opened filename s).errno _ _
      | true =>
        by_cases htransfer : st.size = 0 ∨ (fs (cStr filename)).transfer st.size = .ok st.size
        · obtain ⟨q, hrun, hclosed⟩ := readRegular_complete strerror hopen htransfer s
          exact .inl ⟨st, q, ⟨hopen, hstatus, hreg, htransfer⟩, hrun, hclosed⟩
        · refine .inr ⟨fun st' hcomplete => ?_, ?_⟩
          · obtain rfl := Except.ok.inj (hstatus.symm.trans hcomplete.status)
            exact htransfer hcomplete.transfer
          · exact readRegular_short strerror hopen (fun h => htransfer (.inl h))
              (fun h => htransfer (.inr h)) s

end Cases

/-! ## The whole file -/

theorem not_complete_of_fails {file : File} (h : Fails file) (st : Stat) : ¬ Complete file st := by
  intro hcomplete
  rcases h with ⟨e, hopen⟩ | ⟨e, hstatus⟩ | ⟨st', hstatus, hst'⟩
  · cases hopen.symm.trans hcomplete.opens
  · cases hstatus.symm.trans hcomplete.status
  · obtain rfl := Except.ok.inj (hstatus.symm.trans hcomplete.status)
    rcases hst' with hreg | ⟨hsize, e, htransfer⟩
    · cases hreg.symm.trans hcomplete.isReg
    · rcases hcomplete.transfer with hzero | hall
      · exact Nat.lt_irrefl 0 (hzero ▸ hsize)
      · cases htransfer.symm.trans hall

/-- A readable file is read completely if one `read` transfers it all. An empty file needs
no `read`. -/
theorem complete_iff {file : File} (h : Readable file) :
    (∃ st, Complete file st) ↔
      file.content = [] ∨ file.transfer file.content.length = .ok file.content.length := by
  constructor
  · rintro ⟨st, hcomplete⟩
    obtain rfl := Except.ok.inj (h.status.symm.trans hcomplete.status)
    exact hcomplete.transfer.imp List.eq_nil_of_length_eq_zero id
  · intro hall
    exact ⟨_, h.opens, h.status, rfl, hall.imp (fun hnil => by rw [hnil]; rfl) id⟩

/-- `read_binary_file` and `read_text_file` do the same. -/
theorem readTextFile_eq (strerror : Int → Text) (fs : FileSystem) (filename : Text)
    (s : IoState) :
    (readTextFile strerror fs filename).run s = (readBinaryFile strerror fs filename).run s :=
  rfl

/-- **The whole file is returned** exactly if it is empty or the first `read` transfers it
all. Files that are not regular, and calls that fail, always give `FileException`, and the
file is always closed once. -/
theorem readFile_correct_iff (strerror : Int → Text) (fs : FileSystem) (filename : Text)
    (s : IoState) :
    (Correct (fs (cStr filename)) s ((readBinaryFile strerror fs filename).run s) ∧
      Correct (fs (cStr filename)) s ((readTextFile strerror fs filename).run s)) ↔
    (Readable (fs (cStr filename)) → (fs (cStr filename)).content = [] ∨
      (fs (cStr filename)).transfer (fs (cStr filename)).content.length =
        .ok (fs (cStr filename)).content.length) := by
  rw [readTextFile_eq, and_self, readBinaryFile]
  rcases readFile_cases strerror fs filename s with
    ⟨st, q, hcomplete, hrun, hclosed⟩ | ⟨hnot, reason, err, q, hrun, hclosed⟩
  · rw [hrun]
    constructor
    · exact fun _ hreadable => (complete_iff hreadable).mp ⟨st, hcomplete⟩
    · refine fun _ => ⟨fun hreadable => ⟨q, ?_⟩, fun hfails => ?_, hclosed⟩
      · obtain rfl := Except.ok.inj (hreadable.status.symm.trans hcomplete.status)
        rw [List.take_length]
      · exact absurd hcomplete (not_complete_of_fails hfails st)
  · rw [hrun]
    constructor
    · intro hcorrect hreadable
      obtain ⟨q', hq'⟩ := hcorrect.whole hreadable
      cases hq'
    · refine fun hall => ⟨fun hreadable => ?_, fun _ => ⟨reason, err, q, rfl⟩, hclosed⟩
      obtain ⟨st, hcomplete⟩ := (complete_iff hreadable).mpr (hall hreadable)
      exact absurd hcomplete (hnot st)

/-- Where one `read` transfers at most `limit` bytes, no longer file is returned. -/
theorem readFile_over_limit (strerror : Int → Text) (fs : FileSystem) (filename : Text)
    (s : IoState) {limit : Nat}
    (hlimit : ∀ n count, (fs (cStr filename)).transfer n = .ok count → count ≤ limit)
    (hreadable : Readable (fs (cStr filename)))
    (hlong : limit < (fs (cStr filename)).content.length) :
    ThrowsFileException (fs (cStr filename)) s
      ((readBinaryFile strerror fs filename).run s) := by
  rcases readFile_cases strerror fs filename s with ⟨st, q, hcomplete, -⟩ | ⟨-, hthrows⟩
  · rcases (complete_iff hreadable).mp ⟨st, hcomplete⟩ with hnil | hall
    · rw [hnil] at hlong
      exact absurd hlong (Nat.not_lt_zero limit)
    · exact absurd (hlimit _ _ hall) (Nat.not_le.mpr hlong)
  · exact hthrows

/-- A file of which each `read` transfers one byte. -/
def slowFile : File where
  opens := .ok ()
  status := .ok ⟨true, 2⟩
  content := "ab"
  transfer n := .ok (min n 1)
  transfer_le := by
    rintro n count h
    obtain rfl := Except.ok.inj h
    exact ⟨Nat.min_le_left n 1, Nat.le_trans (Nat.min_le_right n 1) (by decide)⟩
  transfer_pos := by
    rintro n count h hn -
    obtain rfl := Except.ok.inj h
    exact Nat.lt_min.mpr ⟨hn, Nat.one_pos⟩

/-- The two bytes of the file are not returned. -/
theorem slowFile_not_correct :
    Readable slowFile ∧
      ¬ Correct slowFile ⟨[], [], 0⟩
        ((readBinaryFile (fun _ => "Success") (fun _ => slowFile) "testfile").run
          ⟨[], [], 0⟩) := by
  refine ⟨⟨rfl, rfl, nofun⟩, fun hcorrect => ?_⟩
  obtain ⟨q, hq⟩ := hcorrect.whole ⟨rfl, rfl, nofun⟩
  cases hq

end FileIO

end LomiriApi
