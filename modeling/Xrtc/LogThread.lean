import Mathlib.Data.List.Nodup
import Xrtc.Lts
/-!
# LogThread — the server's log queues and the thread that writes them

`XrtcLog` of `base/log.cpp`: any number of threads call `OnLogMessage`, which pushes a line to one of two queues under
its mutex; the log thread tests its flag, drains the log queue into a string stream, writes the stream, drains the error
queue, writes again, and sleeps; `stop_log_thread` clears the flag and joins.  Each mutex-protected region is one step,
and so is each write of the log thread, which alone uses the stream and the files; the file checks at the head of an
iteration change nothing here, since writes succeed.

A file is the list of its batches, each written as the texts one after the other and a newline.  The last five fields
of the state are its history.
-/
namespace Xrtc
namespace LogThread

/-- `rtc::LoggingSeverity`. -/
inductive Severity where
  | verbose
  | info
  | warning
  | error
  | none
  deriving DecidableEq

def Severity.level : Severity → Nat
  | .verbose => 0
  | .info => 1
  | .warning => 2
  | .error => 3
  | .none => 4

/-- A line with its place in the order of all pushes. -/
structure Msg where
  serial : Nat
  severity : Severity
  text : List UInt8
  deriving DecidableEq

/-- `severity>=rtc::WARNING`. -/
def Msg.IsErr (m : Msg) : Prop := Severity.warning.level ≤ m.severity.level

instance (m : Msg) : Decidable m.IsErr := inferInstanceAs (Decidable (Severity.warning.level ≤ m.severity.level))

/-- The log thread's next statement; the flags are `write_log` and `write_err`. -/
inductive Pc where
  | unborn
  | test
  | drainLog
  | writeLog (flag : Bool)
  | drainErr
  | writeErr (flag : Bool)
  | sleep
  | exited
  deriving DecidableEq

inductive StopPc where
  | idle
  | joining
  | returned
  deriving DecidableEq

structure St where
  running : Bool
  pc : Pc
  logQueue : List Msg
  errQueue : List Msg
  ss : List Msg
  outFile : List (List Msg)
  errFile : List (List Msg)
  stop : StopPc
  pushes : Nat
  loggedOut : List Msg
  loggedErr : List Msg
  completed : List Msg
  before : List Msg

/-- `log` is an `OnLogMessage` call up to its push, `ret` its return; `before` is what had returned when
`stop_log_thread` was called. -/
inductive Label where
  | log (severity : Severity) (text : List UInt8)
  | ret (m : Msg)
  | start
  | thread
  | stop
  | join

def init : St := ⟨false, .unborn, [], [], [], [], [], .idle, 0, [], [], [], []⟩

def onLogMessage (s : St) (severity : Severity) (text : List UInt8) : St :=
  let m : Msg := ⟨s.pushes, severity, text⟩
  if m.IsErr then
    { s with errQueue := s.errQueue ++ [m], loggedErr := s.loggedErr ++ [m], pushes := s.pushes + 1 }
  else { s with logQueue := s.logQueue ++ [m], loggedOut := s.loggedOut ++ [m], pushes := s.pushes + 1 }

/-- The lambda of `start_log_thread`. -/
def threadStep (s : St) : Option St :=
  match s.pc with
  | .unborn => none
  | .test => some { s with pc := if s.running = true then .drainLog else .exited }
  | .drainLog => some { s with pc := .writeLog (!s.logQueue.isEmpty), ss := s.ss ++ s.logQueue, logQueue := [] }
  | .writeLog flag =>
    some { s with pc := .drainErr, outFile := if flag = true then s.outFile ++ [s.ss] else s.outFile, ss := [] }
  | .drainErr => some { s with pc := .writeErr (!s.errQueue.isEmpty), ss := s.ss ++ s.errQueue, errQueue := [] }
  | .writeErr flag =>
    some { s with pc := .sleep, errFile := if flag = true then s.errFile ++ [s.ss] else s.errFile, ss := [] }
  | .sleep => some { s with pc := .test }
  | .exited => none

def step (s : St) : Label → Option St
  | .log severity text => some (onLogMessage s severity text)
  | .ret m =>
    if (m ∈ s.loggedOut ∨ m ∈ s.loggedErr) ∧ m ∉ s.completed then some { s with completed := s.completed ++ [m] }
    else none
  | .start => if s.pc = .unborn then some { s with running := true, pc := .test } else none
  | .thread => threadStep s
  | .stop => if s.pc ≠ .unborn ∧ s.stop = .idle then
      some { s with running := false, stop := .joining, before := s.completed } else none
  | .join => if s.stop = .joining ∧ s.pc = .exited then some { s with stop := .returned } else none

/-- The queue a place of the thread is still to drain in its iteration. -/
def Pc.drainsLog : Pc → Bool
  | .drainLog => true
  | _ => false

def Pc.drainsErr : Pc → Bool
  | .drainLog | .writeLog _ | .drainErr => true
  | _ => false

/-- **No line lost or duplicated**: each line whose call had returned before the stop is once in its file and not in the
other, and each file has its lines in the order they were queued. -/
structure Kept (s : St) : Prop where
  err : ∀ m ∈ s.before, m.IsErr → s.errFile.flatten.count m = 1 ∧ s.outFile.flatten.count m = 0
  out : ∀ m ∈ s.before, ¬m.IsErr → s.outFile.flatten.count m = 1 ∧ s.errFile.flatten.count m = 0
  order : s.outFile.flatten <+: s.loggedOut ∧ s.errFile.flatten <+: s.loggedErr

/-- When the thread is told to stop, every queue that holds a line whose call has returned is still to be drained in
the iteration under way. -/
def Awaited (s : St) : Prop :=
  ∀ m ∈ s.completed, (m ∈ s.logQueue → s.pc.drainsLog = true) ∧ (m ∈ s.errQueue → s.pc.drainsErr = true)

instance (s : St) : Decidable (Awaited s) := inferInstanceAs (Decidable (∀ m ∈ s.completed,
  (m ∈ s.logQueue → s.pc.drainsLog = true) ∧ (m ∈ s.errQueue → s.pc.drainsErr = true)))

def InTime (s : St) : Label → Prop
  | .stop => Awaited s
  | _ => True

instance (s : St) : ∀ l : Label, Decidable (InTime s l)
  | .log _ _ => .isTrue trivial
  | .ret _ => .isTrue trivial
  | .start => .isTrue trivial
  | .thread => .isTrue trivial
  | .stop => inferInstanceAs (Decidable (Awaited s))
  | .join => .isTrue trivial

/-! ## The books -/

def Pc.holdsLog : Pc → Bool
  | .writeLog _ => true
  | _ => false

def Pc.holdsErr : Pc → Bool
  | .writeErr _ => true
  | _ => false

/-- The flag of a write says whether there is something to write. -/
def Pc.flagOk (ss : List Msg) : Pc → Prop
  | .writeLog flag | .writeErr flag => flag = !ss.isEmpty
  | _ => True

/-- Every line logged is in its file, in the stream, or in its queue, in this order; serials tell lines apart. -/
structure Books (s : St) : Prop where
  out : s.loggedOut = s.outFile.flatten ++ (if s.pc.holdsLog = true then s.ss else []) ++ s.logQueue
  err : s.loggedErr = s.errFile.flatten ++ (if s.pc.holdsErr = true then s.ss else []) ++ s.errQueue
  flag : s.pc.flagOk s.ss
  empty : s.pc.holdsLog = false → s.pc.holdsErr = false → s.ss = []
  outKind : ∀ m ∈ s.loggedOut, ¬m.IsErr
  errKind : ∀ m ∈ s.loggedErr, m.IsErr
  outSerial : (s.loggedOut.map Msg.serial).Nodup ∧ ∀ m ∈ s.loggedOut, m.serial < s.pushes
  errSerial : (s.loggedErr.map Msg.serial).Nodup ∧ ∀ m ∈ s.loggedErr, m.serial < s.pushes
  completed : ∀ m ∈ s.completed, m ∈ s.loggedOut ∨ m ∈ s.loggedErr
  before : ∀ m ∈ s.before, m ∈ s.loggedOut ∨ m ∈ s.loggedErr
  born : s.stop ≠ .idle → s.pc ≠ .unborn
  stopped : s.stop ≠ .idle → s.running = false
  joined : s.stop = .returned → s.pc = .exited

theorem books_init : Books init := by
  constructor <;> simp [init, Pc.holdsLog, Pc.holdsErr, Pc.flagOk]

theorem serials_push {msgs : List Msg} {pushes : Nat} {m : Msg} (hnodup : (msgs.map Msg.serial).Nodup)
    (hlt : ∀ m ∈ msgs, m.serial < pushes) (hm : m.serial = pushes) :
    ((msgs ++ [m]).map Msg.serial).Nodup ∧ ∀ k ∈ msgs ++ [m], k.serial < pushes + 1 := by
  constructor
  · rw [List.map_append, List.nodup_append]
    refine ⟨hnodup, by simp, ?_⟩
    intro a ha b hb
    obtain ⟨k, hk, rfl⟩ := List.mem_map.1 ha
    have := hlt k hk
    rw [List.map_singleton, List.mem_singleton] at hb
    omega
  · refine List.forall_mem_append.2 ⟨fun k hk => Nat.lt_succ_of_lt (hlt k hk), List.forall_mem_singleton.2 ?_⟩
    rw [hm]
    exact Nat.lt_succ_self pushes

theorem books_log {s : St} (h : Books s) (severity : Severity) (text : List UInt8) :
    Books (onLogMessage s severity text) := by
  simp only [onLogMessage]
  split
  · rename_i hkind
    obtain ⟨hnodup, hlt⟩ := h.errSerial
    exact { h with
      err := by simp only [h.err, List.append_assoc]
      errKind := List.forall_mem_append.2 ⟨h.errKind, List.forall_mem_singleton.2 hkind⟩
      outSerial := ⟨h.outSerial.1, fun m hm => Nat.lt_succ_of_lt (h.outSerial.2 m hm)⟩
      errSerial := serials_push hnodup hlt rfl
      completed := fun m hm => (h.completed m hm).imp_right (List.mem_append_left _)
      before := fun m hm => (h.before m hm).imp_right (List.mem_append_left _) }
  · rename_i hkind
    obtain ⟨hnodup, hlt⟩ := h.outSerial
    exact { h with
      out := by simp only [h.out, List.append_assoc]
      outKind := List.forall_mem_append.2 ⟨h.outKind, List.forall_mem_singleton.2 hkind⟩
      errSerial := ⟨h.errSerial.1, fun m hm => Nat.lt_succ_of_lt (h.errSerial.2 m hm)⟩
      outSerial := serials_push hnodup hlt rfl
      completed := fun m hm => (h.completed m hm).imp_left (List.mem_append_left _)
      before := fun m hm => (h.before m hm).imp_left (List.mem_append_left _) }

/-- A write appends the stream when it holds something, and writing nothing is appending nothing. -/
theorem written_append {flag : Bool} {ss : List Msg} (hflag : flag = !ss.isEmpty) (file : List (List Msg))
    (queue : List Msg) : file.flatten ++ ss ++ queue =
      (if flag = true then file ++ [ss] else file).flatten ++ queue := by
  cases ss with
  | nil => simp [hflag]
  | cons m ss => simp [hflag]

/-- The statements of the thread. -/
inductive ThreadMove (s : St) : St → Prop
  | test (hpc : s.pc = .test) : ThreadMove s { s with pc := if s.running = true then .drainLog else .exited }
  | drainLog (hpc : s.pc = .drainLog) :
      ThreadMove s { s with pc := .writeLog (!s.logQueue.isEmpty), ss := s.ss ++ s.logQueue, logQueue := [] }
  | writeLog {flag : Bool} (hpc : s.pc = .writeLog flag) :
      ThreadMove s { s with
        pc := .drainErr, outFile := if flag = true then s.outFile ++ [s.ss] else s.outFile, ss := [] }
  | drainErr (hpc : s.pc = .drainErr) :
      ThreadMove s { s with pc := .writeErr (!s.errQueue.isEmpty), ss := s.ss ++ s.errQueue, errQueue := [] }
  | writeErr {flag : Bool} (hpc : s.pc = .writeErr flag) :
      ThreadMove s { s with
        pc := .sleep, errFile := if flag = true then s.errFile ++ [s.ss] else s.errFile, ss := [] }
  | sleep (hpc : s.pc = .sleep) : ThreadMove s { s with pc := .test }

theorem threadStep_move {s s' : St} (hs : threadStep s = some s') : ThreadMove s s' := by
  unfold threadStep at hs
  split at hs
  · cases hs
  · rename_i hpc
    cases hs
    exact .test hpc
  · rename_i hpc
    cases hs
    exact .drainLog hpc
  · rename_i hpc
    cases hs
    exact .writeLog hpc
  · rename_i hpc
    cases hs
    exact .drainErr hpc
  · rename_i hpc
    cases hs
    exact .writeErr hpc
  · rename_i hpc
    cases hs
    exact .sleep hpc
  · cases hs

theorem thread_frame {s s' : St} (h : ThreadMove s s') :
    s'.stop = s.stop ∧ s'.before = s.before ∧ s'.pc ≠ .unborn ∧ s.pc ≠ .exited := by
  cases h with
  | test hpc =>
    refine ⟨rfl, rfl, ?_, by simp [hpc]⟩
    cases s.running <;> simp
  | drainLog hpc => exact ⟨rfl, rfl, by simp, by simp [hpc]⟩
  | writeLog hpc => exact ⟨rfl, rfl, by simp, by simp [hpc]⟩
  | drainErr hpc => exact ⟨rfl, rfl, by simp, by simp [hpc]⟩
  | writeErr hpc => exact ⟨rfl, rfl, by simp, by simp [hpc]⟩
  | sleep hpc => exact ⟨rfl, rfl, by simp, by simp [hpc]⟩

/-- The thread moves lines from a queue to the stream and from the stream to a file, and loses none. -/
theorem books_thread {s s' : St} (h : Books s) (hm : ThreadMove s s') : Books s' := by
  have hout := h.out
  have herr := h.err
  have hflag := h.flag
  have hempty := h.empty
  obtain ⟨hstop, -, hborn, hlive⟩ := thread_frame hm
  have hjoined : s'.stop = .returned → s'.pc = .exited := by
    intro hret
    exact absurd (h.joined (hstop ▸ hret)) hlive
  cases hm with
  | test hpc =>
    simp only [hpc, Pc.holdsLog, Pc.holdsErr, Pc.flagOk, forall_const] at hout herr hflag hempty
    refine { h with out := ?_, err := ?_, flag := ?_, empty := ?_, born := fun _ => hborn, joined := hjoined }
    · cases s.running <;> exact hout
    · cases s.running <;> exact herr
    · cases s.running <;> trivial
    · exact fun _ _ => hempty
  | drainLog hpc =>
    -- the stream is empty here: the queue is all it will hold
    simp only [hpc, Pc.holdsLog, Pc.holdsErr, Pc.flagOk, forall_const] at hout herr hflag hempty
    refine { h with out := ?_, err := ?_, flag := ?_, empty := ?_, born := fun _ => hborn, joined := hjoined }
    · simpa [hempty, Pc.holdsLog] using hout
    · simpa [Pc.holdsErr] using herr
    · simp [hempty, Pc.flagOk]
    · intro hno
      cases hno
  | writeLog hpc =>
    simp only [hpc, Pc.holdsLog, Pc.holdsErr, Pc.flagOk] at hout herr hflag
    refine { h with
      out := ?_, err := ?_, flag := trivial, empty := fun _ _ => rfl, born := fun _ => hborn, joined := hjoined }
    · simpa [Pc.holdsLog] using hout.trans (written_append hflag s.outFile s.logQueue)
    · simpa [Pc.holdsErr] using herr
  | drainErr hpc =>
    simp only [hpc, Pc.holdsLog, Pc.holdsErr, Pc.flagOk, forall_const] at hout herr hflag hempty
    refine { h with out := ?_, err := ?_, flag := ?_, empty := ?_, born := fun _ => hborn, joined := hjoined }
    · simpa [Pc.holdsLog] using hout
    · simpa [hempty, Pc.holdsErr] using herr
    · simp [hempty, Pc.flagOk]
    · intro _ hno
      cases hno
  | writeErr hpc =>
    simp only [hpc, Pc.holdsLog, Pc.holdsErr, Pc.flagOk] at hout herr hflag
    refine { h with
      out := ?_, err := ?_, flag := trivial, empty := fun _ _ => rfl, born := fun _ => hborn, joined := hjoined }
    · simpa [Pc.holdsLog] using hout
    · simpa [Pc.holdsErr] using herr.trans (written_append hflag s.errFile s.errQueue)
  | sleep hpc =>
    simp only [hpc, Pc.holdsLog, Pc.holdsErr, Pc.flagOk, forall_const] at hout herr hflag hempty
    exact { h with
      out := hout, err := herr, flag := trivial, empty := fun _ _ => hempty, born := fun _ => hborn, joined := hjoined }

theorem books_step {s s' : St} {l : Label} (h : Books s) (hs : step s l = some s') : Books s' := by
  cases l with
  | log severity text =>
    cases hs
    exact books_log h severity text
  | ret m =>
    simp only [step] at hs
    split at hs
    · rename_i hm
      cases hs
      exact { h with completed := List.forall_mem_append.2 ⟨h.completed, List.forall_mem_singleton.2 hm.1⟩ }
    · cases hs
  | start =>
    simp only [step] at hs
    split at hs
    · rename_i hpc
      cases hs
      have hout := h.out
      have herr := h.err
      have hempty := h.empty
      rw [hpc] at hout herr hempty
      refine { h with
        out := hout, err := herr, flag := trivial, empty := hempty, born := ?_, stopped := ?_, joined := ?_ }
      · intro _ hunborn
        cases hunborn
      · intro hstop
        exact absurd hpc (h.born hstop)
      · intro hret
        have hexited := h.joined hret
        rw [hpc] at hexited
        cases hexited
    · cases hs
  | thread => exact books_thread h (threadStep_move hs)
  | stop =>
    simp only [step] at hs
    split at hs
    · rename_i hpc
      cases hs
      refine { h with before := h.completed, born := fun _ => hpc.1, stopped := fun _ => rfl, joined := ?_ }
      intro hret
      cases hret
    · cases hs
  | join =>
    simp only [step] at hs
    split at hs
    · rename_i hj
      cases hs
      have hstop : s.stop ≠ .idle := by simp [hj.1]
      exact { h with born := fun _ => h.born hstop, stopped := fun _ => h.stopped hstop, joined := fun _ => hj.2 }
    · cases hs

/-! ## A line the thread will not come back for -/

/-- The line's queue is not drained in the iteration under way. -/
def Stuck (m : Msg) (s : St) : Prop :=
  m ∈ s.logQueue ∧ s.pc.drainsLog = false ∨ m ∈ s.errQueue ∧ s.pc.drainsErr = false

theorem awaited_iff (s : St) : Awaited s ↔ ∀ m ∈ s.completed, ¬Stuck m s := by
  unfold Awaited Stuck
  constructor
  · intro h m hm hstuck
    obtain ⟨hlog, herr⟩ := h m hm
    rcases hstuck with ⟨hq, hpc⟩ | ⟨hq, hpc⟩
    · rw [hlog hq] at hpc
      cases hpc
    · rw [herr hq] at hpc
      cases hpc
  · intro h m hm
    have hstuck := h m hm
    constructor
    · intro hq
      by_contra hpc
      exact hstuck (.inl ⟨hq, Bool.eq_false_iff.2 hpc⟩)
    · intro hq
      by_contra hpc
      exact hstuck (.inr ⟨hq, Bool.eq_false_iff.2 hpc⟩)

theorem stuck_thread {s s' : St} {m : Msg} (hrun : s.running = false) (h : ThreadMove s s') :
    Stuck m s' ↔ Stuck m s := by
  cases h with
  | test hpc => simp [Stuck, hpc, hrun, Pc.drainsLog, Pc.drainsErr]
  | drainLog hpc => simp [Stuck, hpc, Pc.drainsLog, Pc.drainsErr]
  | writeLog hpc => simp [Stuck, hpc, Pc.drainsLog, Pc.drainsErr]
  | drainErr hpc => simp [Stuck, hpc, Pc.drainsLog, Pc.drainsErr]
  | writeErr hpc => simp [Stuck, hpc, Pc.drainsLog, Pc.drainsErr]
  | sleep hpc => simp [Stuck, hpc, Pc.drainsLog, Pc.drainsErr]

theorem stuck_log {s : St} {m : Msg} (hm : m.serial < s.pushes) (severity : Severity) (text : List UInt8) :
    Stuck m (onLogMessage s severity text) ↔ Stuck m s := by
  have hne : m ≠ ⟨s.pushes, severity, text⟩ := by
    rintro rfl
    exact Nat.lt_irrefl _ hm
  simp only [onLogMessage]
  split
  · simp [Stuck, hne]
  · simp [Stuck, hne]

theorem before_serial {s : St} (h : Books s) {m : Msg} (hm : m ∈ s.before) : m.serial < s.pushes := by
  rcases h.before m hm with hm | hm
  · exact h.outSerial.2 m hm
  · exact h.errSerial.2 m hm

/-- **After the stop nothing changes for a line**: no step makes it stuck or frees it. -/
theorem stuck_step {s s' : St} {l : Label} (h : Books s) (hstop : s.stop ≠ .idle) (hs : step s l = some s') :
    s'.stop ≠ .idle ∧ s'.before = s.before ∧ ∀ m ∈ s.before, (Stuck m s' ↔ Stuck m s) := by
  cases l with
  | log severity text =>
    cases hs
    refine ⟨?_, ?_, fun m hm => stuck_log (before_serial h hm) severity text⟩
    · simp only [onLogMessage]
      split <;> exact hstop
    · simp only [onLogMessage]
      split <;> rfl
  | ret k =>
    simp only [step] at hs
    split at hs
    · cases hs
      exact ⟨hstop, rfl, fun _ _ => Iff.rfl⟩
    · cases hs
  | start =>
    simp only [step] at hs
    split at hs
    · rename_i hpc
      exact absurd hpc (h.born hstop)
    · cases hs
  | thread =>
    obtain ⟨hstop', hbefore, -⟩ := thread_frame (threadStep_move hs)
    exact ⟨hstop' ▸ hstop, hbefore, fun _ _ => stuck_thread (h.stopped hstop) (threadStep_move hs)⟩
  | stop =>
    simp only [step] at hs
    split at hs
    · rename_i hpc
      exact absurd hpc.2 hstop
    · cases hs
  | join =>
    simp only [step] at hs
    split at hs
    · cases hs
      exact ⟨by simp, rfl, fun _ _ => Iff.rfl⟩
    · cases hs

/-! ## What is kept -/

theorem written_once {logged file queue : List Msg} {m : Msg} (hlogged : logged = file ++ queue)
    (hnodup : (logged.map Msg.serial).Nodup) (hm : m ∈ logged) : file.count m = 1 ↔ m ∉ queue := by
  have hone : logged.count m = 1 := List.count_eq_one_of_mem (List.Nodup.of_map _ hnodup) hm
  rw [hlogged, List.count_append] at hone
  rw [← List.count_eq_zero]
  omega

theorem kept_iff {s : St} (h : Books s) (hret : s.stop = .returned) : Kept s ↔ ∀ m ∈ s.before, ¬Stuck m s := by
  have hpc := h.joined hret
  have hout : s.loggedOut = s.outFile.flatten ++ s.logQueue := by simpa [hpc, Pc.holdsLog] using h.out
  have herr : s.loggedErr = s.errFile.flatten ++ s.errQueue := by simpa [hpc, Pc.holdsErr] using h.err
  have hlogIn : ∀ m ∈ s.logQueue, m ∈ s.loggedOut := fun m hm => hout ▸ List.mem_append_right _ hm
  have herrIn : ∀ m ∈ s.errQueue, m ∈ s.loggedErr := fun m hm => herr ▸ List.mem_append_right _ hm
  have hstuck : ∀ m, Stuck m s ↔ m ∈ s.logQueue ∨ m ∈ s.errQueue := by
    simp [Stuck, hpc, Pc.drainsLog, Pc.drainsErr]
  constructor
  · intro hk m hm hst
    rcases (hstuck m).1 hst with hq | hq
    · have hin := hlogIn m hq
      exact (written_once hout h.outSerial.1 hin).1 (hk.out m hm (h.outKind m hin)).1 hq
    · have hin := herrIn m hq
      exact (written_once herr h.errSerial.1 hin).1 (hk.err m hm (h.errKind m hin)).1 hq
  · intro hno
    refine ⟨?_, ?_, ?_⟩
    · intro m hm hkind
      have hin : m ∈ s.loggedErr := (h.before m hm).resolve_left (fun hin => h.outKind m hin hkind)
      refine ⟨(written_once herr h.errSerial.1 hin).2 (fun hq => hno m hm ((hstuck m).2 (.inr hq))), ?_⟩
      refine List.count_eq_zero.2 (fun hfile => h.outKind m ?_ hkind)
      exact hout ▸ List.mem_append_left _ hfile
    · intro m hm hkind
      have hin : m ∈ s.loggedOut := (h.before m hm).resolve_right (fun hin => hkind (h.errKind m hin))
      refine ⟨(written_once hout h.outSerial.1 hin).2 (fun hq => hno m hm ((hstuck m).2 (.inl hq))), ?_⟩
      refine List.count_eq_zero.2 (fun hfile => hkind (h.errKind m ?_))
      exact herr ▸ List.mem_append_left _ hfile
    · exact ⟨hout ▸ List.prefix_append _ _, herr ▸ List.prefix_append _ _⟩

/-- Once the stop has been called, no line it has to wait for is stuck. -/
structure OnTime (s : St) : Prop where
  books : Books s
  free : s.stop ≠ .idle → ∀ m ∈ s.before, ¬Stuck m s

theorem onTime_init : OnTime init := by
  refine ⟨books_init, ?_⟩
  intro hstop
  exact absurd rfl hstop

theorem stop_step {s s' : St} (hs : step s .stop = some s') :
    s.stop = .idle ∧ s' = { s with running := false, stop := .joining, before := s.completed } := by
  simp only [step] at hs
  split at hs
  · rename_i hpc
    cases hs
    exact ⟨hpc.2, rfl⟩
  · cases hs

theorem idle_step {s s' : St} {l : Label} (hidle : s.stop = .idle) (hl : l ≠ .stop) (hs : step s l = some s') :
    s'.stop = .idle := by
  cases l with
  | log severity text =>
    cases hs
    simp only [onLogMessage]
    split <;> exact hidle
  | ret m =>
    simp only [step] at hs
    split at hs
    · cases hs
      exact hidle
    · cases hs
  | start =>
    simp only [step] at hs
    split at hs
    · cases hs
      exact hidle
    · cases hs
  | thread => exact (thread_frame (threadStep_move hs)).1.trans hidle
  | stop => exact absurd rfl hl
  | join =>
    simp only [step] at hs
    split at hs
    · rename_i hj
      rw [hidle] at hj
      cases hj.1
    · cases hs

theorem onTime_step {s s' : St} {l : Label} (h : OnTime s) (hok : InTime s l) (hs : step s l = some s') :
    OnTime s' := by
  refine ⟨books_step h.books hs, ?_⟩
  intro hstop' m hm
  by_cases hstop : s.stop = .idle
  · by_cases hl : l = .stop
    · subst hl
      obtain ⟨-, rfl⟩ := stop_step hs
      exact (awaited_iff s).1 hok m hm
    · exact absurd (idle_step hstop hl hs) hstop'
  · obtain ⟨-, hbefore, hiff⟩ := stuck_step h.books hstop hs
    rw [hbefore] at hm
    rw [hiff m hm]
    exact h.free hstop m hm

theorem via_onTime {s : St} (h : Lts.Via step InTime init s) : OnTime s :=
  h.invariant onTime_init (fun _ _ _ hi hok hs => onTime_step hi hok hs)

theorem reachable_stuck {s s' : St} {m : Msg} (hb : Books s) (hstop : s.stop ≠ .idle) (hm : m ∈ s.before)
    (hstuck : Stuck m s) (h : Lts.Reachable step s s') : Books s' ∧ s'.stop ≠ .idle ∧ m ∈ s'.before ∧ Stuck m s' := by
  refine h.invariant (I := fun t => Books t ∧ t.stop ≠ .idle ∧ m ∈ t.before ∧ Stuck m t) ⟨hb, hstop, hm, hstuck⟩ ?_
  rintro t l t' ⟨htb, htstop, htm, htstuck⟩ hs
  obtain ⟨hstop', hbefore, hiff⟩ := stuck_step htb htstop hs
  exact ⟨books_step htb hs, hstop', hbefore ▸ htm, (hiff m htm).2 htstuck⟩

/-- **No log line is lost or duplicated, when the stop comes in time.**  In every run whose stop finds each queue that
holds a returned call's line still to be drained, `stop_log_thread` returns with all of them written; after a stop that
comes later, it never does. -/
theorem no_line_lost {s : St} (h : Lts.Via step InTime init s) :
    (s.stop = .returned → Kept s) ∧
    (¬InTime s .stop → ∀ s' t, step s .stop = some s' → Lts.Reachable step s' t → t.stop = .returned → ¬Kept t) := by
  have hi := via_onTime h
  constructor
  · intro hret
    exact (kept_iff hi.books hret).2 (hi.free (by simp [hret]))
  · intro hlate s' t hs ht hret hkept
    have hb' := books_step hi.books hs
    obtain ⟨-, rfl⟩ := stop_step hs
    have hsome : ∃ m ∈ s.completed, Stuck m s := by
      by_contra hnone
      push Not at hnone
      exact hlate ((awaited_iff s).2 hnone)
    obtain ⟨m, hm, hstuck⟩ := hsome
    obtain ⟨htb, -, htm, htstuck⟩ := reachable_stuck hb' (by simp) hm hstuck ht
    exact (kept_iff htb hret).1 hkept m htm htstuck

def info : Msg := ⟨0, .info, [104, 105]⟩

def warning : Msg := ⟨1, .warning, [33]⟩

/-- Two calls return, and the stop comes while the thread is about to drain. -/
def stopInTime : List Label :=
  [.start, .log .info [104, 105], .ret info, .log .warning [33], .ret warning, .thread, .stop, .thread, .thread, .thread,
    .thread, .thread, .thread, .join]

theorem no_line_lost_stopInTime : ∃ s, Lts.Via step InTime init s ∧ s.stop = .returned ∧ Kept s ∧
    s.before = [info, warning] ∧ s.outFile = [[info]] ∧ s.errFile = [[warning]] := by
  have hend : (Lts.run (Lts.guarded InTime step) init stopInTime).map
      (fun s => (s.stop, s.before, s.outFile, s.errFile)) =
        some (.returned, [info, warning], [[info]], [[warning]]) := by decide
  obtain ⟨s, hs, hfields⟩ := Option.map_eq_some_iff.1 hend
  simp only [Prod.mk.injEq] at hfields
  obtain ⟨hret, hbefore, hout, herr⟩ := hfields
  have hvia : Lts.Via step InTime init s := Lts.Via.of_run .start hs
  exact ⟨s, hvia, hret, (no_line_lost hvia).1 hret, hbefore, hout, herr⟩

/-- A call returns and the stop comes while the thread sleeps. -/
def stopLate : List Label :=
  [.start, .thread, .thread, .thread, .thread, .thread, .log .info [104, 105], .ret info, .stop, .thread, .thread, .join]

theorem last_line_lost : ¬ ∀ s, Lts.Reachable step init s → s.stop = .returned → Kept s := by
  intro hall
  have hend : (Lts.run step init stopLate).map (fun s => (s.stop, s.before, s.outFile)) =
      some (.returned, [info], []) := by decide
  obtain ⟨s, hs, hfields⟩ := Option.map_eq_some_iff.1 hend
  simp only [Prod.mk.injEq] at hfields
  obtain ⟨hret, hbefore, hout⟩ := hfields
  have hkept := hall s (Lts.Reachable.of_run hs) hret
  have hcount := (hkept.out info (by simp [hbefore]) (by decide)).1
  rw [hout] at hcount
  cases hcount

end LogThread
end Xrtc
