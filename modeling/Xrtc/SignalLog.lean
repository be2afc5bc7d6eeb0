import Xrtc.LogThread
import Xrtc.Mutexes
/-!
# SignalLog — `process_signal` and the mutexes of the log

`RTC_LOG` ends in `~LogMessage` (`rtc_base/logging.cc`), which calls the sinks under `g_log_mutex_`; the one sink is
`XrtcLog`, whose `OnLogMessage` pushes the line to a queue under that queue's mutex (`base/log.cpp`), the mutex the log
thread drains the queue under.  `process_signal` (`main.cpp`) is a signal handler, and logs: it runs on top of whichever
thread the signal interrupts, which stays where it is until the handler returns.  None of the mutexes is reentrant.

The threads that log are `n` in number; each may log anything at any time.  One signal is handled at a time.
-/
namespace Xrtc
namespace SignalLog

open LogThread (Severity)

/-- `g_log_mutex_`, `_log_mutex`, `_err_mutex`. -/
inductive Mutex where
  | global
  | log
  | err
  deriving DecidableEq

inductive Tid (n : Nat) where
  | logger (i : Fin n)
  | writer
  deriving DecidableEq

/-- An activation: a thread's own code, or the signal handler, whatever thread it is on. -/
inductive Frame (n : Nat) where
  | own (t : Tid n)
  | handler
  deriving DecidableEq

/-- A log call: before `g_log_mutex_`, in the sink before the queue's mutex, before the push, before the unlocking of
`g_log_mutex_`. -/
inductive Stage where
  | enter
  | inSink
  | push
  | leave
  deriving DecidableEq

structure Call where
  stage : Stage
  severity : Severity
  text : List UInt8
  deriving DecidableEq

/-- The statements of `process_signal`: its log calls, `g_signaling_server->stop()` and `g_rtc_server->stop()`. -/
inductive Act where
  | log
  | stopSignaling
  | stopRtc
  deriving DecidableEq

def processSignal : List Act := [.log, .log, .stopSignaling, .log, .stopRtc]

structure Handler (n : Nat) where
  on : Tid n
  call : Option Call
  todo : List Act

/-- `calls` are the loggers' own calls, `draining` the mutex the log thread has locked for its next statement, `stops`
how often the handler has called a server's `stop`. -/
structure St (n : Nat) where
  base : LogThread.St
  owner : Mutex → Option (Frame n)
  calls : Fin n → Option Call
  draining : Option Mutex
  handler : Option (Handler n)
  stops : Nat

/-- `call`, `writer` and `handler` are the next statement of a logger's call, of the log thread and of the handler, the
latter with the text of the line should it begin one and whether the `write` of a `notify` fails. -/
inductive Label (n : Nat) where
  | begin (i : Fin n) (severity : Severity) (text : List UInt8)
  | call (i : Fin n)
  | writer
  | signal (t : Tid n)
  | handler (text : List UInt8) (fails : Bool)

variable {n : Nat}

/-- After `start_log_thread`. -/
def init : St n := ⟨{ LogThread.init with running := true, pc := .test }, fun _ => none, fun _ => none, none, none, 0⟩

def queueMutex (severity : Severity) : Mutex := if Severity.warning.level ≤ severity.level then .err else .log

/-- The handler is not on top of it. -/
def Running (s : St n) (t : Tid n) : Prop := ∀ h ∈ s.handler, h.on ≠ t

instance (s : St n) (t : Tid n) : Decidable (Running s t) := inferInstanceAs (Decidable (∀ h ∈ s.handler, h.on ≠ t))

/-- The next statement of a log call of frame `f`; `level` is the sink's `min_severity_`. -/
def callStep (level : Severity) (s : St n) (f : Frame n) (c : Call) : Option (St n × Option Call) :=
  match c.stage with
  | .enter =>
    if s.owner .global = none then
      some ({ s with owner := Function.update s.owner .global (some f) },
        some { c with stage := if level.level ≤ c.severity.level then .inSink else .leave })
    else none
  | .inSink =>
    if s.owner (queueMutex c.severity) = none then
      some ({ s with owner := Function.update s.owner (queueMutex c.severity) (some f) }, some { c with stage := .push })
    else none
  | .push => some ({ s with
      base := LogThread.onLogMessage s.base c.severity c.text
      owner := Function.update s.owner (queueMutex c.severity) none }, some { c with stage := .leave })
  | .leave => some ({ s with owner := Function.update s.owner .global none }, none)

def lockQueue (s : St n) (m : Mutex) : Option (St n) :=
  if s.owner m = none then
    some { s with owner := Function.update s.owner m (some (.own .writer)), draining := some m }
  else none

/-- The log thread locks a queue's mutex, drains it and unlocks; what else it does needs no mutex. -/
def writerStep (s : St n) : Option (St n) :=
  match s.draining with
  | some m => (LogThread.threadStep s.base).map (fun b => { s with
      base := b, owner := Function.update s.owner m none, draining := none })
  | none => match s.base.pc with
    | .drainLog => lockQueue s .log
    | .drainErr => lockQueue s .err
    | _ => (LogThread.threadStep s.base).map (fun b => { s with base := b })

/-- Of the two `notify` only the signaling server's logs its failure. -/
def handlerStep (level : Severity) (s : St n) (h : Handler n) (text : List UInt8) (fails : Bool) : Option (St n) :=
  match h.call with
  | some c => (callStep level s .handler c).map (fun p => { p.1 with handler := some { h with call := p.2 } })
  | none => match h.todo with
    | [] => some { s with handler := none }
    | .log :: rest => some { s with handler := some { h with call := some ⟨.enter, .info, text⟩, todo := rest } }
    | .stopSignaling :: rest => some { s with
        handler := some { h with call := if fails then some ⟨.enter, .warning, text⟩ else none, todo := rest }
        stops := s.stops + 1 }
    | .stopRtc :: rest => some { s with handler := some { h with call := none, todo := rest }, stops := s.stops + 1 }

def step (level : Severity) (s : St n) : Label n → Option (St n)
  | .begin i severity text =>
    if Running s (.logger i) ∧ s.calls i = none then
      some { s with calls := Function.update s.calls i (some ⟨.enter, severity, text⟩) }
    else none
  | .call i =>
    if Running s (.logger i) then match s.calls i with
      | none => none
      | some c => (callStep level s (.own (.logger i)) c).map (fun p => { p.1 with
          calls := Function.update p.1.calls i p.2 })
    else none
  | .writer => if Running s .writer then writerStep s else none
  | .signal t => if s.handler.isNone = true then some { s with handler := some ⟨t, none, processSignal⟩ } else none
  | .handler text fails => match s.handler with
    | none => none
    | some h => handlerStep level s h text fails

/-! ## Who holds what -/

def Call.Holds (c : Call) (m : Mutex) : Prop :=
  (c.stage ≠ .enter ∧ m = .global) ∨ (c.stage = .push ∧ m = queueMutex c.severity)

instance (c : Call) (m : Mutex) : Decidable (c.Holds m) :=
  inferInstanceAs (Decidable ((c.stage ≠ .enter ∧ m = .global) ∨ (c.stage = .push ∧ m = queueMutex c.severity)))

/-- The mutexes a frame holds, from the place it is at. -/
def Holds (s : St n) : Frame n → Mutex → Prop
  | .own (.logger i), m => ∃ c ∈ s.calls i, c.Holds m
  | .own .writer, m => s.draining = some m
  | .handler, m => ∃ h ∈ s.handler, ∃ c ∈ h.call, c.Holds m

structure Inv (s : St n) : Prop where
  locks : Mutexes.Consistent s.owner (Holds s)
  drains : ∀ m, s.draining = some m → (m = .log ∧ s.base.pc = .drainLog) ∨ (m = .err ∧ s.base.pc = .drainErr)

theorem queueMutex_ne_global (severity : Severity) : queueMutex severity ≠ .global := by
  unfold queueMutex
  split <;> decide

theorem onLogMessage_pc (b : LogThread.St) (severity : Severity) (text : List UInt8) :
    (LogThread.onLogMessage b severity text).pc = b.pc := by
  unfold LogThread.onLogMessage
  simp only
  split <;> rfl

section Calls
variable {level : Severity} {s s' : St n} {f : Frame n} {c : Call}

/-- What one statement of a call does, and what the call is then. -/
inductive CallMove (level : Severity) (s : St n) (f : Frame n) (c : Call) : St n × Option Call → Prop
  | enter (hc : c.stage = .enter) (hfree : s.owner .global = none) : CallMove level s f c
      ({ s with owner := Function.update s.owner .global (some f) },
        some { c with stage := if level.level ≤ c.severity.level then .inSink else .leave })
  | inSink (hc : c.stage = .inSink) (hfree : s.owner (queueMutex c.severity) = none) : CallMove level s f c
      ({ s with owner := Function.update s.owner (queueMutex c.severity) (some f) }, some { c with stage := .push })
  | push (hc : c.stage = .push) : CallMove level s f c
      ({ s with
        base := LogThread.onLogMessage s.base c.severity c.text
        owner := Function.update s.owner (queueMutex c.severity) none }, some { c with stage := .leave })
  | leave (hc : c.stage = .leave) : CallMove level s f c
      ({ s with owner := Function.update s.owner .global none }, none)

theorem callStep_move {p : St n × Option Call} (hs : callStep level s f c = some p) : CallMove level s f c p := by
  unfold callStep at hs
  split at hs
  · rename_i hc
    split at hs
    · rename_i hfree
      cases hs
      exact .enter hc hfree
    · cases hs
  · rename_i hc
    split at hs
    · rename_i hfree
      cases hs
      exact .inSink hc hfree
    · cases hs
  · rename_i hc
    cases hs
    exact .push hc
  · rename_i hc
    cases hs
    exact .leave hc

/-- A call touches the lock table and, in its push, the queues. -/
theorem callMove_frame {p : St n × Option Call} (hm : CallMove level s f c p) :
    p.1.calls = s.calls ∧ p.1.draining = s.draining ∧ p.1.handler = s.handler ∧ p.1.stops = s.stops ∧
      p.1.base.pc = s.base.pc := by
  cases hm with
  | push => exact ⟨rfl, rfl, rfl, rfl, onLogMessage_pc _ _ _⟩
  | _ => exact ⟨rfl, rfl, rfl, rfl, rfl⟩

/-- **The lock table follows the call**: `s'` is the state with the call's new place stored in its frame. -/
theorem call_locks {p : St n × Option Call} (h : Mutexes.Consistent s.owner (Holds s))
    (hself : ∀ m, Holds s f m ↔ c.Holds m) (hm : CallMove level s f c p) (howner : s'.owner = p.1.owner)
    (hnew : ∀ m, Holds s' f m ↔ ∃ d ∈ p.2, d.Holds m) (hother : ∀ f', f' ≠ f → ∀ m, Holds s' f' m ↔ Holds s f' m) :
    Mutexes.Consistent s'.owner (Holds s') := by
  -- the other frames are where they were
  have hlock : ∀ {m : Mutex}, (∀ m', Holds s' f m' ↔ Holds s f m' ∨ m' = m) →
      ∀ f' m', Holds s' f' m' ↔ Holds s f' m' ∨ (f' = f ∧ m' = m) := by
    intro m hf f' m'
    by_cases hff : f' = f
    · subst hff
      rw [hf m']
      simp
    · rw [hother f' hff m']
      simp [hff]
  have hunlock : ∀ {m : Mutex}, (∀ m', Holds s' f m' ↔ Holds s f m' ∧ m' ≠ m) →
      ∀ f' m', Holds s' f' m' ↔ Holds s f' m' ∧ ¬(f' = f ∧ m' = m) := by
    intro m hf f' m'
    by_cases hff : f' = f
    · subst hff
      rw [hf m']
      simp
    · rw [hother f' hff m']
      simp [hff]
  have hq := queueMutex_ne_global c.severity
  rw [howner]
  cases hm with
  | enter hc hfree =>
    refine h.lock hfree (hlock (fun m' => ?_))
    rw [hnew, hself]
    simp only [Option.mem_some_iff, exists_eq_left', Call.Holds, hc]
    split <;> simp
  | inSink hc hfree =>
    refine h.lock hfree (hlock (fun m' => ?_))
    rw [hnew, hself]
    simp [Call.Holds, hc]
  | push hc =>
    refine h.unlock ((hself _).2 (.inr ⟨hc, rfl⟩)) (hunlock (fun m' => ?_))
    rw [hnew, hself]
    simp only [Option.mem_some_iff, exists_eq_left', Call.Holds, hc]
    constructor
    · rintro (⟨-, rfl⟩ | ⟨hno, -⟩)
      · exact ⟨.inl ⟨by decide, rfl⟩, Ne.symm hq⟩
      · cases hno
    · rintro ⟨⟨-, rfl⟩ | ⟨-, rfl⟩, hne⟩
      · exact .inl ⟨by decide, rfl⟩
      · exact absurd rfl hne
  | leave hc =>
    refine h.unlock ((hself _).2 (.inl ⟨by simp [hc], rfl⟩)) (hunlock (fun m' => ?_))
    rw [hnew, hself]
    simp [Call.Holds, hc]

end Calls

section Moves
variable {level : Severity} {s s' : St n}

inductive WriterMove (s : St n) : St n → Prop
  | unlock {m : Mutex} {b : LogThread.St} (hd : s.draining = some m) (hb : LogThread.threadStep s.base = some b) :
      WriterMove s { s with base := b, owner := Function.update s.owner m none, draining := none }
  | lock {m : Mutex} (hd : s.draining = none)
      (hm : (m = .log ∧ s.base.pc = .drainLog) ∨ (m = .err ∧ s.base.pc = .drainErr)) (hfree : s.owner m = none) :
      WriterMove s { s with owner := Function.update s.owner m (some (.own .writer)), draining := some m }
  | other {b : LogThread.St} (hd : s.draining = none) (hb : LogThread.threadStep s.base = some b) :
      WriterMove s { s with base := b }

theorem lockQueue_move {m : Mutex} (hd : s.draining = none)
    (hm : (m = .log ∧ s.base.pc = .drainLog) ∨ (m = .err ∧ s.base.pc = .drainErr)) (hs : lockQueue s m = some s') :
    WriterMove s s' := by
  unfold lockQueue at hs
  split at hs
  · rename_i hfree
    cases hs
    exact .lock hd hm hfree
  · cases hs

theorem writerStep_move (hs : writerStep s = some s') : WriterMove s s' := by
  unfold writerStep at hs
  split at hs
  · rename_i m hd
    obtain ⟨b, hb, rfl⟩ := Option.map_eq_some_iff.1 hs
    exact .unlock hd hb
  · rename_i hd
    split at hs
    · rename_i hpc
      exact lockQueue_move hd (.inl ⟨rfl, hpc⟩) hs
    · rename_i hpc
      exact lockQueue_move hd (.inr ⟨rfl, hpc⟩) hs
    · obtain ⟨b, hb, rfl⟩ := Option.map_eq_some_iff.1 hs
      exact .other hd hb

inductive HandlerMove (level : Severity) (s : St n) (h : Handler n) : St n → Prop
  | call {c : Call} {p : St n × Option Call} (hc : h.call = some c) (hm : CallMove level s .handler c p) :
      HandlerMove level s h { p.1 with handler := some { h with call := p.2 } }
  | log {rest : List Act} (text : List UInt8) (hc : h.call = none) (ht : h.todo = .log :: rest) :
      HandlerMove level s h { s with handler := some { h with call := some ⟨.enter, .info, text⟩, todo := rest } }
  | stop {a : Act} {rest : List Act} {call : Option Call} (hc : h.call = none) (ht : h.todo = a :: rest) (ha : a ≠ .log)
      (hcall : ∀ c ∈ call, c.stage = .enter) :
      HandlerMove level s h { s with handler := some { h with call := call, todo := rest }, stops := s.stops + 1 }
  | done (hc : h.call = none) (ht : h.todo = []) : HandlerMove level s h { s with handler := none }

theorem handlerStep_move {h : Handler n} {text : List UInt8} {fails : Bool}
    (hs : handlerStep level s h text fails = some s') :
    HandlerMove level s h s' := by
  unfold handlerStep at hs
  split at hs
  · rename_i c hc
    obtain ⟨p, hp, rfl⟩ := Option.map_eq_some_iff.1 hs
    exact .call hc (callStep_move hp)
  · rename_i hc
    split at hs
    · rename_i ht
      cases hs
      exact .done hc ht
    · rename_i rest ht
      cases hs
      exact .log text hc ht
    · rename_i rest ht
      cases hs
      refine .stop hc ht (by decide) ?_
      split
      · rintro c ⟨rfl⟩
        rfl
      · exact fun c hc => (nomatch hc)
    · rename_i rest ht
      cases hs
      exact .stop hc ht (by decide) (fun c hc => (nomatch hc))

/-- The steps of the system. -/
inductive Move (level : Severity) (s : St n) : St n → Prop
  | begin {i : Fin n} {c : Call} (hrun : Running s (.logger i)) (hi : s.calls i = none) (hc : c.stage = .enter) :
      Move level s { s with calls := Function.update s.calls i (some c) }
  | call {i : Fin n} {c : Call} {p : St n × Option Call} (hrun : Running s (.logger i)) (hi : s.calls i = some c)
      (hm : CallMove level s (.own (.logger i)) c p) :
      Move level s { p.1 with calls := Function.update p.1.calls i p.2 }
  | writer {s' : St n} (hrun : Running s .writer) (hm : WriterMove s s') : Move level s s'
  | signal (t : Tid n) (hh : s.handler = none) : Move level s { s with handler := some ⟨t, none, processSignal⟩ }
  | handler {s' : St n} {h : Handler n} (hh : s.handler = some h) (hm : HandlerMove level s h s') : Move level s s'

theorem step_move {l : Label n} (hs : step level s l = some s') : Move level s s' := by
  cases l with
  | begin i severity text =>
    simp only [step] at hs
    split at hs
    · rename_i hok
      cases hs
      exact .begin hok.1 hok.2 rfl
    · cases hs
  | call i =>
    simp only [step] at hs
    split at hs
    · rename_i hrun
      split at hs
      · cases hs
      · rename_i c hi
        obtain ⟨p, hp, rfl⟩ := Option.map_eq_some_iff.1 hs
        exact .call hrun hi (callStep_move hp)
    · cases hs
  | writer =>
    simp only [step] at hs
    split at hs
    · rename_i hrun
      exact .writer hrun (writerStep_move hs)
    · cases hs
  | signal t =>
    simp only [step] at hs
    split at hs
    · rename_i hh
      cases hs
      exact .signal t (Option.isNone_iff_eq_none.1 hh)
    · cases hs
  | handler text fails =>
    simp only [step] at hs
    split at hs
    · cases hs
    · rename_i h hh
      exact .handler hh (handlerStep_move hs)

/-! ## The lock table is right -/

theorem inv_init : Inv (init : St n) := by
  refine ⟨fun m f => ⟨fun ho => (nomatch ho), fun hf => ?_⟩, fun m hm => (nomatch hm)⟩
  match f, hf with
  | .own (.logger i), ⟨c, hc, _⟩ => cases hc
  | .own .writer, hd => cases hd
  | .handler, ⟨h, hh, _⟩ => cases hh

/-- A call of frame `f`, before its new place is stored. -/
theorem inv_call {f : Frame n} {c : Call} {p : St n × Option Call} (h : Inv s) (hself : ∀ m, Holds s f m ↔ c.Holds m)
    (hm : CallMove level s f c p) (howner : s'.owner = p.1.owner) (hdraining : s'.draining = p.1.draining)
    (hbase : s'.base = p.1.base) (hnew : ∀ m, Holds s' f m ↔ ∃ d ∈ p.2, d.Holds m)
    (hother : ∀ f', f' ≠ f → ∀ m, Holds s' f' m ↔ Holds s f' m) : Inv s' := by
  obtain ⟨-, hd, -, -, hpc⟩ := callMove_frame hm
  refine ⟨call_locks h.locks hself hm howner hnew hother, fun m hdm => ?_⟩
  rw [hbase, hpc]
  exact h.drains m (by rw [← hd, ← hdraining]; exact hdm)

theorem inv_writer (h : Inv s) (hm : WriterMove s s') : Inv s' := by
  cases hm with
  | @unlock m b hd hb =>
    have hheld : Holds s (.own .writer) m := hd
    refine ⟨h.locks.unlock hheld ?_, fun m hm => (nomatch hm)⟩
    intro f' m'
    match f' with
    | .own (.logger i) => simp [Holds]
    | .own .writer =>
      simp only [Holds, reduceCtorEq, true_and, false_iff, not_and, not_not]
      intro hd'
      rw [hd, Option.some.injEq] at hd'
      exact hd'.symm
    | .handler => simp [Holds]
  | lock hd hm hfree =>
    refine ⟨h.locks.lock hfree ?_, fun m' hm' => ?_⟩
    · intro f' m'
      match f' with
      | .own (.logger i) => simp [Holds]
      | .own .writer =>
        simp only [Holds, hd, reduceCtorEq, false_or, true_and, Option.some.injEq]
        exact eq_comm
      | .handler => simp [Holds]
    · cases hm'
      exact hm
  | other hd hb =>
    refine ⟨h.locks.congr (fun f' m' => ?_), fun m hm => ?_⟩
    · match f' with
      | .own (.logger i) => exact Iff.rfl
      | .own .writer => exact Iff.rfl
      | .handler => exact Iff.rfl
    · rw [show s.draining = none from hd] at hm
      cases hm

theorem inv_handler {k : Handler n} (h : Inv s) (hh : s.handler = some k) (hm : HandlerMove level s k s') : Inv s' := by
  cases hm with
  | @call c p hc hm =>
    obtain ⟨hcalls, hdraining, -, -, -⟩ := callMove_frame hm
    refine inv_call h (f := .handler) ?_ hm rfl rfl rfl ?_ ?_
    · intro m
      simp [Holds, hh, hc]
    · intro m
      simp [Holds]
    · intro f' hf' m
      match f' with
      | .own (.logger i) => simp only [Holds, hcalls]
      | .own .writer => simp only [Holds, hdraining]
      | .handler => exact absurd rfl hf'
  | log text hc ht =>
    refine ⟨h.locks.congr (fun f' m' => ?_), h.drains⟩
    match f' with
    | .own (.logger i) => exact Iff.rfl
    | .own .writer => exact Iff.rfl
    | .handler => simp [Holds, hh, hc, Call.Holds]
  | @stop a rest call hc ht ha hcall =>
    refine ⟨h.locks.congr (fun f' m' => ?_), h.drains⟩
    match f' with
    | .own (.logger i) => exact Iff.rfl
    | .own .writer => exact Iff.rfl
    | .handler =>
      cases call with
      | none => simp [Holds, hh, hc]
      | some c => simp [Holds, hh, hc, Call.Holds, hcall c rfl]
  | done hc ht =>
    refine ⟨h.locks.congr (fun f' m' => ?_), h.drains⟩
    match f' with
    | .own (.logger i) => exact Iff.rfl
    | .own .writer => exact Iff.rfl
    | .handler => simp [Holds, hh, hc]

theorem inv_step (h : Inv s) (hm : Move level s s') : Inv s' := by
  cases hm with
  | @begin i c hrun hi hc =>
    refine ⟨h.locks.congr (fun f' m' => ?_), h.drains⟩
    match f' with
    | .own (.logger j) =>
      by_cases hj : j = i
      · subst hj
        simp [Holds, hi, Call.Holds, hc]
      · simp [Holds, hj]
    | .own .writer => exact Iff.rfl
    | .handler => exact Iff.rfl
  | @call i c p hrun hi hm =>
    obtain ⟨hcalls, hdraining, hhandler, -, -⟩ := callMove_frame hm
    refine inv_call h (f := .own (.logger i)) ?_ hm rfl rfl rfl ?_ ?_
    · intro m
      simp [Holds, hi]
    · intro m
      simp [Holds]
    · intro f' hf' m
      match f' with
      | .own (.logger j) =>
        have hj : j ≠ i := by
          rintro rfl
          exact hf' rfl
        simp only [Holds, hcalls, Function.update_of_ne hj]
      | .own .writer => simp only [Holds, hdraining]
      | .handler => simp only [Holds, hhandler]
  | writer hrun hm => exact inv_writer h hm
  | signal t hh =>
    refine ⟨h.locks.congr (fun f' m' => ?_), h.drains⟩
    match f' with
    | .own (.logger j) => exact Iff.rfl
    | .own .writer => exact Iff.rfl
    | .handler => simp [Holds, hh]
  | handler hh hm => exact inv_handler h hh hm

theorem reachable_inv (h : Lts.Reachable (step level) init s) : Inv s :=
  h.invariant inv_init (fun _ _ _ hi hs => inv_step hi (step_move hs))

/-- A thread the handler is on stays where it is. -/
theorem suspended {h : Handler n} (hh : s.handler = some h) (hm : Move level s s') (m : Mutex) :
    Holds s' (.own h.on) m ↔ Holds s (.own h.on) m := by
  have hsame : s'.calls = s.calls → s'.draining = s.draining → (Holds s' (.own h.on) m ↔ Holds s (.own h.on) m) := by
    intro hc hd
    cases h.on with
    | logger i => simp only [Holds, hc]
    | writer => simp only [Holds, hd]
  cases hm with
  | @begin i c hrun hi hc =>
    have hne : h.on ≠ .logger i := hrun h hh
    cases ho : h.on with
    | logger j =>
      have hj : j ≠ i := by
        rintro rfl
        exact hne ho
      simp only [Holds, Function.update_of_ne hj]
    | writer => exact Iff.rfl
  | @call i c p hrun hi hm =>
    have hne : h.on ≠ .logger i := hrun h hh
    obtain ⟨hcalls, hdraining, -, -, -⟩ := callMove_frame hm
    cases ho : h.on with
    | logger j =>
      have hj : j ≠ i := by
        rintro rfl
        exact hne ho
      simp only [Holds, hcalls, Function.update_of_ne hj]
    | writer => simp only [Holds, hdraining]
  | writer hrun hm =>
    have hne : h.on ≠ .writer := hrun h hh
    have hcalls : s'.calls = s.calls := by
      cases hm <;> rfl
    cases ho : h.on with
    | logger j => simp only [Holds, hcalls]
    | writer => exact absurd ho hne
  | signal t hnone =>
    rw [hh] at hnone
    cases hnone
  | handler _ hm =>
    cases hm with
    | call _ hm =>
      obtain ⟨hcalls, hdraining, -, -, -⟩ := callMove_frame hm
      exact hsame hcalls hdraining
    | log => exact hsame rfl rfl
    | stop => exact hsame rfl rfl
    | done => exact hsame rfl rfl

end Moves

/-! ## A handler that waits for its own thread -/

section Hang
variable {level : Severity} {s s' : St n}

/-- The handler, on `t`, has not got past a mutex that `t` holds. -/
structure Stuck (t : Tid n) (m : Mutex) (stops pushes : Nat) (s : St n) : Prop where
  held : Holds s (.own t) m
  waits : ∃ h, s.handler = some h ∧ h.on = t ∧ ((h.call = none ∧ h.todo = processSignal) ∨
    (∃ text, h.call = some ⟨.enter, .info, text⟩) ∨ (m = .log ∧ ∃ text, h.call = some ⟨.inSink, .info, text⟩))
  stops : s.stops = stops
  silent : m = .global → s.base.pushes = pushes

/-- Lines are pushed under `g_log_mutex_`. -/
theorem pushes_call {f : Frame n} {c : Call} {p : St n × Option Call} (hself : ∀ m, Holds s f m ↔ c.Holds m)
    (hno : ¬Holds s f .global) (hm : CallMove level s f c p) : p.1.base.pushes = s.base.pushes := by
  cases hm with
  | push hc => exact absurd ((hself .global).2 (.inl ⟨by simp [hc], rfl⟩)) hno
  | _ => rfl

theorem pushes_thread {b b' : LogThread.St} (hb : LogThread.threadStep b = some b') : b'.pushes = b.pushes := by
  cases LogThread.threadStep_move hb <;> rfl

/-- The handler inside a log call. -/
theorem handlerMove_call {k : Handler n} {c : Call} (hc : k.call = some c) (hm : HandlerMove level s k s') :
    ∃ p, CallMove level s .handler c p ∧ s' = { p.1 with handler := some { k with call := p.2 } } := by
  cases hm with
  | @call d p hd hm =>
    rw [hc, Option.some.injEq] at hd
    subst hd
    exact ⟨p, hm, rfl⟩
  | log _ hno => rw [hc] at hno; cases hno
  | stop hno => rw [hc] at hno; cases hno
  | done hno => rw [hc] at hno; cases hno

/-- The handler before a log call. -/
theorem handlerMove_log {k : Handler n} {rest : List Act} (hc : k.call = none) (ht : k.todo = .log :: rest)
    (hm : HandlerMove level s k s') :
    ∃ text, s' = { s with handler := some { k with call := some ⟨.enter, .info, text⟩, todo := rest } } := by
  cases hm with
  | call hd => rw [hc] at hd; cases hd
  | log text _ ht' =>
    rw [ht] at ht'
    cases ht'
    exact ⟨text, rfl⟩
  | stop _ ht' ha =>
    rw [ht] at ht'
    cases ht'
    exact absurd rfl ha
  | done _ ht' => rw [ht] at ht'; cases ht'

/-- The mutexes the handler comes to are the ones its thread has. -/
theorem stuck_handler {t : Tid n} {m : Mutex} {stops pushes : Nat} (hinv : Inv s)
    (hwhich : m = .global ∨ (m = .log ∧ level.level ≤ Severity.info.level)) (h : Stuck t m stops pushes s)
    {k : Handler n} (hk : s.handler = some k) (hm : HandlerMove level s k s') (hheld : Holds s' (.own t) m) :
    Stuck t m stops pushes s' := by
  have howner : s.owner m = some (.own t) := (hinv.locks m _).2 h.held
  obtain ⟨k', hk', hon, hwait⟩ := h.waits
  rw [hk] at hk'
  cases hk'
  rcases hwait with ⟨hcall, htodo⟩ | ⟨text, hcall⟩ | ⟨hml, text, hcall⟩
  · obtain ⟨text, rfl⟩ := handlerMove_log hcall htodo hm
    exact ⟨hheld, ⟨_, rfl, hon, .inr (.inl ⟨text, rfl⟩)⟩, h.stops, h.silent⟩
  · obtain ⟨p, hp, rfl⟩ := handlerMove_call hcall hm
    cases hp with
    | enter _ hfree =>
      rcases hwhich with rfl | ⟨rfl, hlevel⟩
      · rw [howner] at hfree
        cases hfree
      · exact ⟨hheld, ⟨_, rfl, hon, .inr (.inr ⟨rfl, text, by simp [hlevel]⟩)⟩, h.stops, fun hg => (nomatch hg)⟩
    | inSink hc => cases hc
    | push hc => cases hc
    | leave hc => cases hc
  · obtain ⟨p, hp, rfl⟩ := handlerMove_call hcall hm
    cases hp with
    | inSink _ hfree =>
      rw [show queueMutex Severity.info = .log from rfl, ← hml, howner] at hfree
      cases hfree
    | enter hc => cases hc
    | push hc => cases hc
    | leave hc => cases hc

theorem stuck_step {t : Tid n} {m : Mutex} {stops pushes : Nat} (hinv : Inv s)
    (hwhich : m = .global ∨ (m = .log ∧ level.level ≤ Severity.info.level)) (h : Stuck t m stops pushes s)
    (hm : Move level s s') : Stuck t m stops pushes s' := by
  obtain ⟨k, hk, hon, hwait⟩ := h.waits
  have hheld : Holds s' (.own t) m := by
    have hsus := suspended hk hm m
    rw [hon] at hsus
    exact hsus.2 h.held
  -- whoever else moves does not have `g_log_mutex_` when `t` has it
  have hother : ∀ f, f ≠ .own t → m = .global → ¬Holds s f .global := by
    rintro f hf rfl hg
    exact hf (hinv.locks.exclusive hg h.held)
  have hself : ∀ s'', s''.handler = s.handler → s''.stops = s.stops → (m = .global → s''.base.pushes = s.base.pushes) →
      Holds s'' (.own t) m → Stuck t m stops pushes s'' := fun s'' h1 h2 h3 h4 =>
    ⟨h4, ⟨k, h1 ▸ hk, hon, hwait⟩, h2.trans h.stops, fun hg => (h3 hg).trans (h.silent hg)⟩
  cases hm with
  | begin hrun hi hc => exact hself _ rfl rfl (fun _ => rfl) hheld
  | @call i c p hrun hi hm =>
    obtain ⟨-, -, hhandler, hstops, -⟩ := callMove_frame hm
    refine hself _ hhandler hstops (fun hg => ?_) hheld
    refine pushes_call (fun m => by simp [Holds, hi]) (hother _ ?_ hg) hm
    rintro ⟨rfl⟩
    exact hrun k hk hon
  | writer hrun hm =>
    refine hself _ ?_ ?_ (fun _ => ?_) hheld
    · cases hm <;> rfl
    · cases hm <;> rfl
    · cases hm with
      | unlock _ hb => exact pushes_thread hb
      | lock => rfl
      | other _ hb => exact pushes_thread hb
  | signal _ hnone =>
    rw [hk] at hnone
    cases hnone
  | handler hk' hm => exact stuck_handler hinv hwhich h hk' hm hheld

theorem stuck_run {t : Tid n} {m : Mutex} {stops pushes : Nat}
    (hwhich : m = .global ∨ (m = .log ∧ level.level ≤ Severity.info.level)) : ∀ (ls : List (Label n)) {s s' : St n},
    Inv s → Stuck t m stops pushes s → Lts.run (step level) s ls = some s' → Stuck t m stops pushes s'
  | [], _, _, _, h, hr => by
    simp only [Lts.run, Option.some.injEq] at hr
    exact hr ▸ h
  | _ :: ls, _, _, hinv, h, hr => by
    obtain ⟨s₁, hs, hr⟩ := Option.bind_eq_some_iff.1 hr
    have hm := step_move hs
    exact stuck_run hwhich ls (inv_step hinv hm) (stuck_step hinv hwhich h hm) hr

end Hang

/-- **A signal that interrupts a thread in its log call is never answered.**  Whatever is reached before: when the signal
is delivered to a thread that holds `g_log_mutex_`, or is the log thread and holds `_log_mutex` while the sink takes
lines of the handler's severity, then in every run that follows the handler never returns and never calls a `stop`; and
in the first case no thread ever logs a line again. -/
theorem signal_handler_hangs (level : Severity) (s s₁ s₂ : St n) (h : Lts.Reachable (step level) init s) (t : Tid n)
    (hheld : Holds s (.own t) .global ∨ (level.level ≤ Severity.info.level ∧ Holds s (.own t) .log))
    (hs : step level s (.signal t) = some s₁) (ls : List (Label n)) (hr : Lts.run (step level) s₁ ls = some s₂) :
    s₂.stops = s.stops ∧ s₂.handler.isSome = true ∧
      (Holds s (.own t) .global → s₂.base.pushes = s.base.pushes) := by
  have hinv := reachable_inv h
  simp only [step] at hs
  split at hs
  · cases hs
    have hinv₁ : Inv { s with handler := some ⟨t, none, processSignal⟩ } :=
      inv_step hinv (Move.signal t (Option.isNone_iff_eq_none.1 (by assumption)) : Move level s _)
    have hstuck : ∀ m, Holds s (.own t) m → Stuck t m s.stops s.base.pushes
        { s with handler := some ⟨t, none, processSignal⟩ } := by
      intro m hm
      refine ⟨?_, ⟨_, rfl, rfl, .inl ⟨rfl, rfl⟩⟩, rfl, fun _ => rfl⟩
      cases t with
      | logger i => exact hm
      | writer => exact hm
    have hend : ∀ m, (m = .global ∨ (m = .log ∧ level.level ≤ Severity.info.level)) → Holds s (.own t) m →
        Stuck t m s.stops s.base.pushes s₂ := fun m hwhich hm => stuck_run hwhich ls hinv₁ (hstuck m hm) hr
    have hany : ∃ m, Stuck t m s.stops s.base.pushes s₂ := by
      rcases hheld with hg | ⟨hlevel, hl⟩
      · exact ⟨.global, hend .global (.inl rfl) hg⟩
      · exact ⟨.log, hend .log (.inr ⟨rfl, hlevel⟩) hl⟩
    obtain ⟨m, hm⟩ := hany
    obtain ⟨k, hk, -⟩ := hm.waits
    exact ⟨hm.stops, by rw [hk]; rfl, fun hg => (hend .global (.inl rfl) hg).silent rfl⟩
  · cases hs

/-- Logger `i` has got to the sink. -/
def inItsLog (i : Fin n) : List (Label n) := [.begin i .warning [], .call i]

theorem signal_handler_hangs_inItsLog : ∃ s s₁ s₂ : St 1, Lts.run (step .info) init (inItsLog 0) = some s ∧
    step .info s (.signal (.logger 0)) = some s₁ ∧
    Lts.run (step .info) s₁ [.handler [] false, .writer, .writer, .writer] = some s₂ ∧ s₂.stops = 0 ∧
    s₂.handler.isSome = true ∧ s₂.base.pushes = 0 := by
  have hsome : ((Lts.run (step .info) (init : St 1) (inItsLog 0)).bind (fun s => (step .info s (.signal (.logger 0))).bind
      (fun s₁ => Lts.run (step .info) s₁ [.handler [] false, .writer, .writer, .writer]))).isSome = true := by decide
  obtain ⟨s₂, h₂⟩ := Option.isSome_iff_exists.1 hsome
  obtain ⟨s, hs, h₂⟩ := Option.bind_eq_some_iff.1 h₂
  obtain ⟨s₁, hs₁, h₂⟩ := Option.bind_eq_some_iff.1 h₂
  have hlook : (Lts.run (step .info) (init : St 1) (inItsLog 0)).map (fun s => (s.calls 0, s.stops, s.base.pushes)) =
      some (some ⟨.inSink, .warning, []⟩, 0, 0) := by decide
  rw [hs, Option.map_some, Option.some.injEq, Prod.mk.injEq, Prod.mk.injEq] at hlook
  have hheld : Holds s (.own (.logger 0)) .global := ⟨_, hlook.1, .inl ⟨by decide, rfl⟩⟩
  obtain ⟨hstops, hhandler, hpushes⟩ := signal_handler_hangs .info s s₁ s₂ (Lts.Reachable.of_run hs) (.logger 0)
    (.inl hheld) hs₁ _ h₂
  exact ⟨s, s₁, s₂, hs, hs₁, h₂, hstops.trans hlook.2.1, hhandler, (hpushes hheld).trans hlook.2.2⟩

/-! ## A handler that can always go on -/

section Progress
variable {level : Severity} {s s' : St n}

/-- The handler is on `t`, which holds nothing, and has `total` stops behind it when it is done. -/
structure Clear (t : Tid n) (total : Nat) (s : St n) : Prop where
  inv : Inv s
  free : ∀ m, ¬Holds s (.own t) m
  pending : ∃ h, s.handler = some h ∧ h.on = t ∧ s.stops + h.todo.countP (· ≠ .log) = total

/-- The handler has not moved. -/
theorem Clear.waited {t : Tid n} {total : Nat} (h : Clear t total s) (hm : Move level s s')
    (hhandler : s'.handler = s.handler) (hstops : s'.stops = s.stops) : Clear t total s' := by
  obtain ⟨k, hk, hon, hsum⟩ := h.pending
  refine ⟨inv_step h.inv hm, fun m hm' => ?_, ⟨k, hhandler ▸ hk, hon, hstops ▸ hsum⟩⟩
  have hsus := suspended hk hm m
  rw [hon] at hsus
  exact h.free m (hsus.1 hm')

theorem Clear.handled {t : Tid n} {total : Nat} (h : Clear t total s) {k : Handler n} (hk : s.handler = some k)
    (hm : HandlerMove level s k s') (hleft : k.todo ≠ [] ∨ k.call ≠ none) : Clear t total s' := by
  have hmove : Move level s s' := .handler hk hm
  obtain ⟨k', hk', hon, hsum⟩ := h.pending
  rw [hk] at hk'
  cases hk'
  have hfree : ∀ m, ¬Holds s' (.own t) m := by
    intro m hm'
    have hsus := suspended hk hmove m
    rw [hon] at hsus
    exact h.free m (hsus.1 hm')
  have hinv := inv_step h.inv hmove
  cases hm with
  | call _ hm =>
    obtain ⟨-, -, -, hstops, -⟩ := callMove_frame hm
    exact ⟨hinv, hfree, ⟨_, rfl, hon, hstops ▸ hsum⟩⟩
  | log text _ ht =>
    refine ⟨hinv, hfree, ⟨_, rfl, hon, ?_⟩⟩
    rw [ht] at hsum
    simpa using hsum
  | stop _ ht ha =>
    refine ⟨hinv, hfree, ⟨_, rfl, hon, ?_⟩⟩
    rw [ht, List.countP_cons_of_pos (by simpa using ha)] at hsum
    simp only
    omega
  | done hc ht => exact absurd ht (hleft.resolve_right (fun hno => hno hc))

theorem clear_step {t : Tid n} {total : Nat} (h : Clear t total s) (hm : Move level s s') :
    Clear t total s' ∨ total ≤ s'.stops := by
  obtain ⟨k, hk, hon, hsum⟩ := h.pending
  cases hm with
  | begin hrun hi hc => exact .inl (h.waited (.begin hrun hi hc : Move level s _) rfl rfl)
  | call hrun hi hm =>
    obtain ⟨-, -, hhandler, hstops, -⟩ := callMove_frame hm
    exact .inl (h.waited (.call hrun hi hm) hhandler hstops)
  | writer hrun hm =>
    exact .inl (h.waited (.writer hrun hm : Move level s _) (by cases hm <;> rfl) (by cases hm <;> rfl))
  | signal _ hnone =>
    rw [hk] at hnone
    cases hnone
  | handler hk' hm =>
    by_cases hleft : k.todo ≠ [] ∨ k.call ≠ none
    · rw [hk] at hk'
      cases hk'
      exact .inl (h.handled hk hm hleft)
    · rw [not_or, not_not, not_not] at hleft
      rw [hk] at hk'
      cases hk'
      rw [hleft.1] at hsum
      cases hm with
      | call hc => rw [hleft.2] at hc; cases hc
      | log _ _ ht => rw [hleft.1] at ht; cases ht
      | stop _ ht => rw [hleft.1] at ht; cases ht
      | done => exact .inr (Nat.le_of_eq hsum.symm)

theorem stops_mono (hm : Move level s s') : s.stops ≤ s'.stops := by
  cases hm with
  | begin => exact Nat.le_refl _
  | call _ _ hm => exact Nat.le_of_eq (callMove_frame hm).2.2.2.1.symm
  | writer _ hm => cases hm <;> exact Nat.le_refl _
  | signal => exact Nat.le_refl _
  | handler _ hm =>
    cases hm with
    | call _ hm => exact Nat.le_of_eq (callMove_frame hm).2.2.2.1.symm
    | log => exact Nat.le_refl _
    | stop => exact Nat.le_succ _
    | done => exact Nat.le_refl _

theorem clear_run {t : Tid n} {total : Nat} : ∀ (ls : List (Label n)) {s s' : St n},
    Clear t total s ∨ total ≤ s.stops → Lts.run (step level) s ls = some s' → Clear t total s' ∨ total ≤ s'.stops
  | [], _, _, h, hr => by
    simp only [Lts.run, Option.some.injEq] at hr
    exact hr ▸ h
  | _ :: ls, _, _, h, hr => by
    obtain ⟨s₁, hs, hr⟩ := Option.bind_eq_some_iff.1 hr
    have hm := step_move hs
    refine clear_run ls ?_ hr
    rcases h with h | h
    · exact clear_step h hm
    · exact .inr (Nat.le_trans h (stops_mono hm))

/-- The threads the handler is not on have run for a while. -/
def Waited (level : Severity) (t : Tid n) (total : Nat) (s s' : St n) : Prop :=
  ∃ ls, Lts.run (step level) s ls = some s' ∧ Clear t total s' ∧ s'.handler = s.handler

theorem Waited.trans {t : Tid n} {total : Nat} {s'' : St n} (h : Waited level t total s s')
    (h' : Waited level t total s' s'') : Waited level t total s s'' := by
  obtain ⟨ls, hr, -, hh⟩ := h
  obtain ⟨ls', hr', hc, hh'⟩ := h'
  refine ⟨ls ++ ls', ?_, hc, hh'.trans hh⟩
  rw [Lts.run_append, hr, Option.bind_some, hr']

theorem Waited.refl {t : Tid n} {total : Nat} (h : Clear t total s) : Waited level t total s s := ⟨[], rfl, h, rfl⟩

/-- At most so many statements of the handler are left. -/
def callRank : Option Call → Nat
  | none => 0
  | some c => match c.stage with
    | .enter => 4
    | .inSink => 3
    | .push => 2
    | .leave => 1

def handlerRank (k : Handler n) : Nat := 5 * k.todo.length + callRank k.call

theorem handler_rank {k : Handler n} (hm : HandlerMove level s k s') (hleft : k.todo ≠ [] ∨ k.call ≠ none) :
    ∃ k', s'.handler = some k' ∧ handlerRank k' < handlerRank k := by
  cases hm with
  | @call c p hc hm =>
    refine ⟨_, rfl, ?_⟩
    unfold handlerRank
    refine Nat.add_lt_add_left ?_ _
    rw [hc]
    cases hm with
    | enter hc =>
      simp only [callRank, hc]
      by_cases hl : level.level ≤ c.severity.level
      · simp [hl]
      · simp [hl]
    | inSink hc => simp [callRank, hc]
    | push hc => simp [callRank, hc]
    | leave hc => simp [callRank, hc]
  | log text hc ht =>
    refine ⟨_, rfl, ?_⟩
    simp only [handlerRank, hc, ht, callRank, List.length_cons]
    omega
  | @stop a rest call hc ht ha hcall =>
    refine ⟨_, rfl, ?_⟩
    simp only [handlerRank, hc, ht, callRank, List.length_cons]
    cases call with
    | none =>
      simp only
      omega
    | some c =>
      simp only [hcall c rfl]
      omega
  | done hc ht => exact absurd ht (hleft.resolve_right (fun hno => hno hc))

variable (level)

/-- A logger in its call takes the next statement. -/
theorem waited_call {t : Tid n} {total : Nat} (h : Clear t total s) {i : Fin n} {c : Call} (hi : s.calls i = some c)
    (hne : t ≠ .logger i) {p : St n × Option Call} (hp : callStep level s (.own (.logger i)) c = some p) :
    Waited level t total s { p.1 with calls := Function.update p.1.calls i p.2 } := by
  obtain ⟨k, hk, hon, -⟩ := h.pending
  have hrun : Running s (.logger i) := by
    intro k' hk'
    rw [hk, Option.mem_some_iff] at hk'
    rw [← hk', hon]
    exact hne
  obtain ⟨-, -, hhandler, hstops, -⟩ := callMove_frame (callStep_move hp)
  refine ⟨[.call i], ?_, h.waited (.call hrun hi (callStep_move hp)) hhandler hstops, hhandler⟩
  simp only [Lts.run, step]
  rw [if_pos hrun, hi]
  simp [hp]

/-- The log thread lets go of a queue. -/
theorem waited_queue {t : Tid n} {total : Nat} (h : Clear t total s) {q : Mutex}
    (hq : ∀ f, Holds s f q → f = .own .writer) :
    ∃ s', Waited level t total s s' ∧ s'.owner q = none ∧ s'.calls = s.calls := by
  cases ho : s.owner q with
  | none => exact ⟨s, .refl h, ho, rfl⟩
  | some f =>
    have hf := (h.inv.locks q f).1 ho
    cases hq f hf
    have hd : s.draining = some q := hf
    have hne : t ≠ .writer := by
      rintro rfl
      exact h.free q hf
    obtain ⟨k, hk, hon, -⟩ := h.pending
    have hrun : Running s .writer := by
      intro k' hk'
      rw [hk, Option.mem_some_iff] at hk'
      rw [← hk', hon]
      exact hne
    have hb : ∃ b, LogThread.threadStep s.base = some b := by
      rcases h.inv.drains q hd with ⟨-, hpc⟩ | ⟨-, hpc⟩
      · exact ⟨_, by rw [LogThread.threadStep, hpc]⟩
      · exact ⟨_, by rw [LogThread.threadStep, hpc]⟩
    obtain ⟨b, hb⟩ := hb
    have hs : step level s .writer = some { s with
        base := b, owner := Function.update s.owner q none, draining := none } := by
      simp only [step, writerStep]
      rw [if_pos hrun, hd]
      simp [hb]
    refine ⟨_, ⟨[.writer], ?_, h.waited (step_move hs) rfl rfl, rfl⟩, Function.update_self _ _ _, rfl⟩
    rw [Lts.run, hs]
    rfl

/-- Only the log thread locks a queue without `g_log_mutex_`. -/
theorem global_of_queue {f : Frame n} {severity : Severity} (hf : Holds s f (queueMutex severity))
    (hne : f ≠ .own .writer) : Holds s f .global := by
  have hcall : ∀ {c : Call}, c.Holds (queueMutex severity) → c.Holds .global := by
    rintro c (⟨hc, -⟩ | ⟨hc, -⟩)
    · exact .inl ⟨hc, rfl⟩
    · exact .inl ⟨by simp [hc], rfl⟩
  match f, hf with
  | .own .writer, _ => exact absurd rfl hne
  | .own (.logger i), ⟨c, hi, hc⟩ => exact ⟨c, hi, hcall hc⟩
  | .handler, ⟨h, hh, c, hi, hc⟩ => exact ⟨h, hh, c, hi, hcall hc⟩

/-- While a call is in the sink but not pushing, only the log thread can have the queue. -/
theorem inSink_queue {f : Frame n} {c : Call} (h : Inv s) (hself : ∀ m, Holds s f m ↔ c.Holds m)
    (hc : c.stage = .inSink) : ∀ f', Holds s f' (queueMutex c.severity) → f' = .own .writer := by
  intro f' hf'
  by_contra hne
  have hg : Holds s f .global := (hself _).2 (.inl ⟨by simp [hc], rfl⟩)
  cases h.locks.exclusive hg (global_of_queue hf' hne)
  rcases (hself _).1 hf' with ⟨-, hq⟩ | ⟨hq, -⟩
  · exact queueMutex_ne_global _ hq
  · rw [hc] at hq
    cases hq

theorem waited_leave {t : Tid n} {total : Nat} (h : Clear t total s) {i : Fin n} {c : Call} (hi : s.calls i = some c)
    (hne : t ≠ .logger i) (hc : c.stage = .leave) : ∃ s', Waited level t total s s' ∧ s'.owner .global = none := by
  have hw : Waited level t total s _ := waited_call level h hi hne (by rw [callStep, hc])
  exact ⟨_, hw, by simp⟩

theorem waited_push {t : Tid n} {total : Nat} (h : Clear t total s) {i : Fin n} {c : Call} (hi : s.calls i = some c)
    (hne : t ≠ .logger i) (hc : c.stage = .push) : ∃ s', Waited level t total s s' ∧ s'.owner .global = none := by
  have hw : Waited level t total s _ := waited_call level h hi hne (by rw [callStep, hc])
  obtain ⟨-, -, h₁, -⟩ := id hw
  obtain ⟨s', hw', hfree⟩ := waited_leave level h₁ (Function.update_self _ _ _) hne rfl
  exact ⟨s', hw.trans hw', hfree⟩

theorem waited_inSink {t : Tid n} {total : Nat} (h : Clear t total s) {i : Fin n} {c : Call} (hi : s.calls i = some c)
    (hne : t ≠ .logger i) (hc : c.stage = .inSink) : ∃ s', Waited level t total s s' ∧ s'.owner .global = none := by
  have hself : ∀ m, Holds s (.own (.logger i)) m ↔ c.Holds m := fun m => by simp [Holds, hi]
  obtain ⟨s₁, hw₁, hfree₁, hcalls₁⟩ := waited_queue level h (inSink_queue h.inv hself hc)
  obtain ⟨-, -, h₁, -⟩ := id hw₁
  have hw₂ : Waited level t total s₁ _ := waited_call level h₁ (hcalls₁ ▸ hi) hne (by rw [callStep, hc]; exact if_pos hfree₁)
  obtain ⟨-, -, h₂, -⟩ := id hw₂
  obtain ⟨s', hw', hfree⟩ := waited_push level h₂ (Function.update_self _ _ _) hne rfl
  exact ⟨s', hw₁.trans (hw₂.trans hw'), hfree⟩

/-- Whoever has `g_log_mutex_` gets through with its call and lets go. -/
theorem waited_global {t : Tid n} {total : Nat} (h : Clear t total s) (hno : ¬Holds s .handler .global) :
    ∃ s', Waited level t total s s' ∧ s'.owner .global = none := by
  cases ho : s.owner .global with
  | none => exact ⟨s, .refl h, ho⟩
  | some f =>
    have hf := (h.inv.locks .global f).1 ho
    match f, hf with
    | .handler, hf => exact absurd hf hno
    | .own .writer, hd =>
      rcases h.inv.drains .global hd with ⟨hm, -⟩ | ⟨hm, -⟩
      · cases hm
      · cases hm
    | .own (.logger i), ⟨c, hi, hc⟩ =>
      have hne : t ≠ .logger i := by
        rintro rfl
        exact h.free .global ⟨c, hi, hc⟩
      cases hst : c.stage with
      | enter => exact absurd hst (by rcases hc with ⟨hc, -⟩ | ⟨hc, -⟩ <;> simp [hc])
      | leave => exact waited_leave level h hi hne hst
      | push => exact waited_push level h hi hne hst
      | inSink => exact waited_inSink level h hi hne hst

/-- The next statement of the handler, with no mutex in its way. -/
theorem handler_ready (k : Handler n) (hglobal : ∀ c ∈ k.call, c.stage = .enter → s.owner .global = none)
    (hqueue : ∀ c ∈ k.call, c.stage = .inSink → s.owner (queueMutex c.severity) = none) :
    ∃ s', handlerStep level s k [] false = some s' := by
  unfold handlerStep
  cases hc : k.call with
  | none =>
    cases k.todo with
    | nil => exact ⟨_, rfl⟩
    | cons a rest => cases a <;> exact ⟨_, rfl⟩
  | some c =>
    cases hst : c.stage with
    | enter => simp [callStep, hst, hglobal c hc hst]
    | inSink => simp [callStep, hst, hqueue c hc hst]
    | push => simp [callStep, hst]
    | leave => simp [callStep, hst]

/-- The other threads can get out of the handler's way. -/
theorem handler_unblocked {t : Tid n} {total : Nat} (h : Clear t total s) {k : Handler n} (hk : s.handler = some k) :
    ∃ s' s'', Waited level t total s s' ∧ handlerStep level s' k [] false = some s'' := by
  have hnow : (∀ c ∈ k.call, c.stage ≠ .enter ∧ c.stage ≠ .inSink) →
      ∃ s' s'', Waited level t total s s' ∧ handlerStep level s' k [] false = some s'' := by
    intro hc
    obtain ⟨s'', hs⟩ := handler_ready (s := s) level k (fun c hk he => absurd he (hc c hk).1)
      (fun c hk he => absurd he (hc c hk).2)
    exact ⟨s, s'', .refl h, hs⟩
  cases hc : k.call with
  | none => exact hnow (by simp [hc])
  | some c =>
    have hself : ∀ m, Holds s .handler m ↔ c.Holds m := fun m => by simp [Holds, hk, hc]
    cases hst : c.stage with
    | enter =>
      have hno : ¬Holds s .handler .global := by
        rw [hself]
        simp [Call.Holds, hst]
      obtain ⟨s', hw, hfree⟩ := waited_global level h hno
      obtain ⟨s'', hs⟩ := handler_ready level k (fun _ _ _ => hfree) (by simp [hc, hst])
      exact ⟨s', s'', hw, hs⟩
    | inSink =>
      obtain ⟨s', hw, hfree, -⟩ := waited_queue level h (inSink_queue h.inv hself hst)
      have hqueue : ∀ d ∈ k.call, d.stage = .inSink → s'.owner (queueMutex d.severity) = none := by simp [hc, hfree]
      obtain ⟨s'', hs⟩ := handler_ready level k (by simp [hc, hst]) hqueue
      exact ⟨s', s'', hw, hs⟩
    | push => exact hnow (by simp [hc, hst])
    | leave => exact hnow (by simp [hc, hst])

variable {level}

/-- The induction is on what the handler has left. -/
theorem handler_progress {t : Tid n} {total : Nat} : ∀ (r : Nat) {s : St n} {k : Handler n}, Clear t total s →
    s.handler = some k → handlerRank k ≤ r → ∃ ls s', Lts.run (step level) s ls = some s' ∧ total ≤ s'.stops := by
  intro r
  induction r with
  | zero =>
    intro s k h hk hr
    obtain ⟨k', hk', -, hsum⟩ := h.pending
    rw [hk] at hk'
    cases hk'
    have htodo : k.todo = [] := by
      rw [← List.length_eq_zero_iff]
      unfold handlerRank at hr
      omega
    rw [htodo] at hsum
    exact ⟨[], s, rfl, Nat.le_of_eq hsum.symm⟩
  | succ r ih =>
    intro s k h hk hr
    by_cases hleft : k.todo ≠ [] ∨ k.call ≠ none
    · obtain ⟨s', s'', ⟨ls, hrun, h', hh'⟩, hs⟩ := handler_unblocked level h hk
      have hm := handlerStep_move hs
      obtain ⟨k'', hk'', hlt⟩ := handler_rank hm hleft
      obtain ⟨ls', s₂, hrun', hdone⟩ := ih (h'.handled (hh'.trans hk) hm hleft) hk'' (by omega)
      refine ⟨ls ++ .handler [] false :: ls', s₂, ?_, hdone⟩
      rw [Lts.run_append, hrun, Option.bind_some, Lts.run]
      simp only [step, hh', hk, hs, Option.bind_some]
      exact hrun'
    · rw [not_or, not_not, not_not] at hleft
      exact ih h hk (by simp [handlerRank, hleft.1, hleft.2, callRank])

end Progress

end SignalLog
end Xrtc
