import Mathlib.Data.Set.Basic
import Mathlib.Data.List.Induction
/-!
# EventLoop — IO watchers and their event masks

`EventLoop::creat_io_event`, `start_io_event` and `stop_io_event` (`base/event_loop.cpp`).  A watcher does not store the
set of events it waits for: the set is read back from libev's `events` field, which keeps its value when the watcher is
stopped.  libev's own part (`ev_io_start`, `ev_io_stop`) is a parameter: what it may do to the other bits of `events` is
left open.
-/
namespace Xrtc
namespace EventLoop

/-- `EventLoop::READ`, `EventLoop::WRITE` and libev's `EV_READ`, `EV_WRITE`, `EV_NONE`, `EV__IOFDSET`, as C ints. -/
def READ : BitVec 32 := 0x1
def WRITE : BitVec 32 := 0x2
def evRead : BitVec 32 := 0x01
def evWrite : BitVec 32 := 0x02
def evNone : BitVec 32 := 0x00
def evIofdset : BitVec 32 := 0x80

def transToEvMask (mask : BitVec 32) : BitVec 32 :=
  (if mask &&& READ ≠ 0 then evRead else 0) ||| (if mask &&& WRITE ≠ 0 then evWrite else 0)

def transFromEvMask (mask : BitVec 32) : BitVec 32 :=
  (if mask &&& evRead ≠ 0 then READ else 0) ||| (if mask &&& evWrite ≠ 0 then WRITE else 0)

/-- The part of `struct ev_io` the two functions read and write. -/
structure IOWatcher where
  active : Bool
  fd : Int
  events : BitVec 32
  deriving DecidableEq

/-- What `ev_io_start` and `ev_io_stop` make of the `events` field: its `EV_READ` and `EV_WRITE` bits stay. -/
structure Libev where
  onStart : BitVec 32 → BitVec 32
  onStop : BitVec 32 → BitVec 32
  start_keeps : ∀ e i, i < 2 → (onStart e).getLsbD i = e.getLsbD i
  stop_keeps : ∀ e i, i < 2 → (onStop e).getLsbD i = e.getLsbD i

/-- `creat_io_event`: `ev_init` clears `active` and leaves `fd` and `events` as the allocation had them. -/
def creatIoEvent (fd : Int) (events : BitVec 32) : IOWatcher := ⟨false, fd, events⟩

def evIoSet (io : IOWatcher) (fd : Int) (events : BitVec 32) : IOWatcher :=
  { io with fd := fd, events := events ||| evIofdset }

section
variable (ev : Libev)

def evIoStart (io : IOWatcher) : IOWatcher := { io with active := true, events := ev.onStart io.events }

def evIoStop (io : IOWatcher) : IOWatcher := { io with active := false, events := ev.onStop io.events }

def startIoEvent (io : IOWatcher) (fd : Int) (mask : BitVec 32) : IOWatcher :=
  if io.active then
    let activeEvents := transFromEvMask io.events
    let newEvents := activeEvents ||| mask
    if newEvents = activeEvents then io
    else
      let newEvents := transToEvMask newEvents
      evIoStart ev (evIoSet (evIoStop ev io) fd newEvents)
  else evIoStart ev (evIoSet io fd (transToEvMask mask))

def stopIoEvent (io : IOWatcher) (fd : Int) (mask : BitVec 32) : IOWatcher :=
  let activeEvents := transFromEvMask io.events
  let newEvents := activeEvents &&& ~~~mask
  if newEvents = activeEvents then io
  else
    let newEvents := transToEvMask newEvents
    let io := evIoStop ev io
    if newEvents ≠ evNone then evIoStart ev (evIoSet io fd newEvents) else io

end

/-! ## Masks as two bits -/

/-- The mask with the given `READ` and `WRITE` bits. -/
def ofBits (r w : Bool) : BitVec 32 := (if r then BitVec.twoPow 32 0 else 0) ||| (if w then BitVec.twoPow 32 1 else 0)

theorem ofBits_inj {r w r' w' : Bool} : ofBits r w = ofBits r' w' ↔ r = r' ∧ w = w' := by
  cases r <;> cases w <;> cases r' <;> cases w' <;> decide

theorem getLsbD_ofBits (r w : Bool) (i : Nat) :
    (ofBits r w).getLsbD i = ((r && decide (i = 0)) || (w && decide (i = 1))) := by
  unfold ofBits
  rw [BitVec.getLsbD_or]
  cases r <;> cases w <;> simp [BitVec.getLsbD_twoPow, eq_comm]

theorem ofBits_zero (r w : Bool) : (ofBits r w).getLsbD 0 = r := by rw [getLsbD_ofBits]; simp

theorem ofBits_one (r w : Bool) : (ofBits r w).getLsbD 1 = w := by rw [getLsbD_ofBits]; simp

/-- `mask & FLAG` is true in C when the flag's bit is set. -/
theorem and_twoPow_ne_zero (m : BitVec 32) {i : Nat} (hi : i < 32) :
    m &&& BitVec.twoPow 32 i ≠ 0 ↔ m.getLsbD i = true := by
  have hne : BitVec.twoPow 32 i ≠ 0 := by
    intro h0
    have hbit := congrArg (fun v => v.getLsbD i) h0
    simp [hi] at hbit
  rw [BitVec.and_twoPow]
  by_cases h : m.getLsbD i = true
  · rw [if_pos h]
    exact ⟨fun _ => h, fun _ => hne⟩
  · rw [if_neg h]
    exact ⟨fun h0 => absurd rfl h0, fun h1 => absurd h1 h⟩

theorem transToEvMask_eq (m : BitVec 32) : transToEvMask m = ofBits (m.getLsbD 0) (m.getLsbD 1) := by
  have h0 : (m &&& READ ≠ 0) = (m.getLsbD 0 = true) := propext (and_twoPow_ne_zero m (i := 0) (by decide))
  have h1 : (m &&& WRITE ≠ 0) = (m.getLsbD 1 = true) := propext (and_twoPow_ne_zero m (i := 1) (by decide))
  simp only [transToEvMask, h0, h1]
  rfl

/-- The two translations are the same function: `READ` is `EV_READ` and `WRITE` is `EV_WRITE`. -/
theorem transFromEvMask_eq (m : BitVec 32) : transFromEvMask m = ofBits (m.getLsbD 0) (m.getLsbD 1) :=
  transToEvMask_eq m

theorem transToEvMask_ofBits (r w : Bool) : transToEvMask (ofBits r w) = ofBits r w := by
  rw [transToEvMask_eq, ofBits_zero, ofBits_one]

theorem ofBits_and_not (r w : Bool) (m : BitVec 32) :
    ofBits r w &&& ~~~m = ofBits (r && !m.getLsbD 0) (w && !m.getLsbD 1) := by
  apply BitVec.eq_of_getLsbD_eq
  intro i hi
  rw [BitVec.getLsbD_and, BitVec.getLsbD_not, getLsbD_ofBits, getLsbD_ofBits]
  match i with
  | 0 => simp
  | 1 => simp
  | i + 2 => simp

/-- The libev event bits a set call leaves: `EV__IOFDSET` is neither of the two. -/
theorem getLsbD_or_iofdset (r w : Bool) {i : Nat} (hi : i < 2) :
    (ofBits r w ||| evIofdset).getLsbD i = (ofBits r w).getLsbD i := by
  match i, hi with
  | 0, _ => cases r <;> cases w <;> decide
  | 1, _ => cases r <;> cases w <;> decide

/-! ## What the two calls do to a watcher's bits -/

/-- The `EV_READ` and `EV_WRITE` bits of the `events` field. -/
def IOWatcher.r (io : IOWatcher) : Bool := io.events.getLsbD 0
def IOWatcher.w (io : IOWatcher) : Bool := io.events.getLsbD 1

section
variable (ev : Libev)

theorem set_start (io : IOWatcher) (fd : Int) (r w : Bool) :
    (evIoStart ev (evIoSet io fd (ofBits r w))).active = true ∧ (evIoStart ev (evIoSet io fd (ofBits r w))).fd = fd ∧
      (evIoStart ev (evIoSet io fd (ofBits r w))).r = r ∧ (evIoStart ev (evIoSet io fd (ofBits r w))).w = w := by
  refine ⟨rfl, rfl, ?_, ?_⟩
  · simp only [evIoStart, evIoSet, IOWatcher.r, ev.start_keeps _ 0 (by decide)]
    rw [getLsbD_or_iofdset r w (by decide), ofBits_zero]
  · simp only [evIoStart, evIoSet, IOWatcher.w, ev.start_keeps _ 1 (by decide)]
    rw [getLsbD_or_iofdset r w (by decide), ofBits_one]

/-- **`start_io_event`** leaves an active watcher whose bits are the started ones, joined to the old ones if it was
active. -/
theorem startIoEvent_bits (io : IOWatcher) (fd : Int) (m : BitVec 32) (hfd : io.active = true → io.fd = fd) :
    (startIoEvent ev io fd m).active = true ∧ (startIoEvent ev io fd m).fd = fd ∧
      (startIoEvent ev io fd m).r = ((io.active && io.r) || m.getLsbD 0) ∧
      (startIoEvent ev io fd m).w = ((io.active && io.w) || m.getLsbD 1) := by
  unfold startIoEvent
  by_cases ha : io.active = true
  · rw [if_pos ha]
    simp only [transFromEvMask_eq]
    by_cases hsame : ofBits (io.events.getLsbD 0) (io.events.getLsbD 1) ||| m =
        ofBits (io.events.getLsbD 0) (io.events.getLsbD 1)
    · -- nothing new in the mask
      rw [if_pos hsame]
      have h0 := congrArg (fun v => v.getLsbD 0) hsame
      have h1 := congrArg (fun v => v.getLsbD 1) hsame
      simp only [BitVec.getLsbD_or, ofBits_zero, ofBits_one] at h0 h1
      refine ⟨ha, hfd ha, ?_, ?_⟩
      · rw [ha, Bool.true_and]
        exact h0.symm
      · rw [ha, Bool.true_and]
        exact h1.symm
    · rw [if_neg hsame, transToEvMask_eq]
      obtain ⟨h1, h2, h3, h4⟩ := set_start ev (evIoStop ev io) fd
        ((ofBits (io.events.getLsbD 0) (io.events.getLsbD 1) ||| m).getLsbD 0)
        ((ofBits (io.events.getLsbD 0) (io.events.getLsbD 1) ||| m).getLsbD 1)
      refine ⟨h1, h2, ?_, ?_⟩
      · rw [h3, BitVec.getLsbD_or, ofBits_zero, ha, Bool.true_and]
        rfl
      · rw [h4, BitVec.getLsbD_or, ofBits_one, ha, Bool.true_and]
        rfl
  · rw [if_neg ha, transToEvMask_eq]
    have hf : io.active = false := by simpa using ha
    obtain ⟨h1, h2, h3, h4⟩ := set_start ev io fd (m.getLsbD 0) (m.getLsbD 1)
    refine ⟨h1, h2, ?_, ?_⟩
    · rw [h3, hf]
      rfl
    · rw [h4, hf]
      rfl

/-- **`stop_io_event`**: nothing to remove and nothing happens; everything is removed and the watcher is stopped with
its bits as they were; or some event remains and the watcher is started for it, whether it was active or not. -/
theorem stopIoEvent_bits (io : IOWatcher) (fd : Int) (m : BitVec 32) :
    ((io.r && m.getLsbD 0) = false ∧ (io.w && m.getLsbD 1) = false ∧ stopIoEvent ev io fd m = io) ∨
    (((io.r && m.getLsbD 0) = true ∨ (io.w && m.getLsbD 1) = true) ∧
      (io.r && !m.getLsbD 0) = false ∧ (io.w && !m.getLsbD 1) = false ∧
      (stopIoEvent ev io fd m).active = false ∧ (stopIoEvent ev io fd m).r = io.r ∧
      (stopIoEvent ev io fd m).w = io.w) ∨
    (((io.r && m.getLsbD 0) = true ∨ (io.w && m.getLsbD 1) = true) ∧
      ((io.r && !m.getLsbD 0) = true ∨ (io.w && !m.getLsbD 1) = true) ∧
      (stopIoEvent ev io fd m).active = true ∧ (stopIoEvent ev io fd m).fd = fd ∧
      (stopIoEvent ev io fd m).r = (io.r && !m.getLsbD 0) ∧ (stopIoEvent ev io fd m).w = (io.w && !m.getLsbD 1)) := by
  unfold stopIoEvent
  simp only [transFromEvMask_eq]
  rw [ofBits_and_not, transToEvMask_ofBits]
  have hr : io.events.getLsbD 0 = io.r := rfl
  have hw : io.events.getLsbD 1 = io.w := rfl
  simp only [hr, hw]
  by_cases hsame : ofBits (io.r && !m.getLsbD 0) (io.w && !m.getLsbD 1) = ofBits io.r io.w
  · rw [if_pos hsame]
    obtain ⟨h0, h1⟩ := ofBits_inj.1 hsame
    refine .inl ⟨?_, ?_, rfl⟩
    · cases hb : io.r <;> cases hm : m.getLsbD 0 <;> simp_all
    · cases hb : io.w <;> cases hm : m.getLsbD 1 <;> simp_all
  · rw [if_neg hsame]
    have hgone : (io.r && m.getLsbD 0) = true ∨ (io.w && m.getLsbD 1) = true := by
      by_contra hnone
      apply hsame
      rw [ofBits_inj]
      cases hb : io.r <;> cases hm : m.getLsbD 0 <;> cases hb' : io.w <;> cases hm' : m.getLsbD 1 <;> simp_all
    by_cases hnone : ofBits (io.r && !m.getLsbD 0) (io.w && !m.getLsbD 1) = evNone
    · have hnone' : ofBits (io.r && !m.getLsbD 0) (io.w && !m.getLsbD 1) = ofBits false false := hnone
      obtain ⟨h0, h1⟩ := ofBits_inj.1 hnone'
      rw [if_neg (fun hne => hne hnone)]
      exact .inr (.inl ⟨hgone, h0, h1, rfl, ev.stop_keeps _ 0 (by decide), ev.stop_keeps _ 1 (by decide)⟩)
    · rw [if_pos hnone]
      refine .inr (.inr ⟨hgone, ?_, set_start ev (evIoStop ev io) fd _ _⟩)
      by_contra hno
      apply hnone
      have h00 : (io.r && !m.getLsbD 0) = false ∧ (io.w && !m.getLsbD 1) = false := by
        constructor
        · exact Bool.eq_false_iff.2 (fun h => hno (.inl h))
        · exact Bool.eq_false_iff.2 (fun h => hno (.inr h))
      rw [h00.1, h00.2]
      rfl

end

/-! ## Sequences of calls -/

inductive IoEvent where
  | read
  | write
  deriving DecidableEq

/-- Whether an int mask, one of the source's or of libev's, has the event's bit. -/
def has (mask : BitVec 32) : IoEvent → Bool
  | .read => mask.getLsbD 0
  | .write => mask.getLsbD 1

def maskSet (mask : BitVec 32) : Set IoEvent := { e | has mask e = true }

/-- The events libev delivers on `fd`: those of an active watcher. -/
def armed (io : IOWatcher) (fd : Int) : Set IoEvent :=
  { e | io.active = true ∧ io.fd = fd ∧ has io.events e = true }

inductive Call where
  | start (mask : BitVec 32)
  | stop (mask : BitVec 32)
  deriving DecidableEq

def apply (ev : Libev) (fd : Int) (io : IOWatcher) : Call → IOWatcher
  | .start mask => startIoEvent ev io fd mask
  | .stop mask => stopIoEvent ev io fd mask

def runCalls (ev : Libev) (fd : Int) (io : IOWatcher) (cs : List Call) : IOWatcher := cs.foldl (apply ev fd) io

/-- The set the calls describe: each started mask is added and each stopped mask removed, in order. -/
def wantStep (S : Set IoEvent) : Call → Set IoEvent
  | .start mask => S ∪ maskSet mask
  | .stop mask => S \ maskSet mask

def want (cs : List Call) : Set IoEvent := cs.foldl wantStep ∅

/-- The calls keep the watcher armed for the set they describe, after each of them. -/
def Tracks (ev : Libev) (fd : Int) (io : IOWatcher) (cs : List Call) : Prop :=
  ∀ pre, pre <+: cs → armed (runCalls ev fd io pre) fd = want pre

/-- Both events, and exactly one event, in a mask. -/
def Both (mask : BitVec 32) : Prop := mask.getLsbD 0 = true ∧ mask.getLsbD 1 = true
def Single (mask : BitVec 32) : Prop := mask.getLsbD 0 ≠ mask.getLsbD 1

/-- The calls end with a stop of both events that found both armed, and further stops only. -/
def Trapped (cs : List Call) : Prop :=
  ∃ pre m mid, cs = pre ++ Call.stop m :: mid ∧ want pre = Set.univ ∧ Both m ∧ ∀ c ∈ mid, ∃ k, c = Call.stop k

/-- **The condition**: after a stop of both events that found both armed, no stop of exactly one event comes before the
next start. -/
def Careful (cs : List Call) : Prop :=
  ∀ pre m, pre ++ [Call.stop m] <+: cs → Trapped pre → ¬ Single m

theorem want_append (cs : List Call) (c : Call) : want (cs ++ [c]) = wantStep (want cs) c := by
  simp [want]

theorem runCalls_append (ev : Libev) (fd : Int) (io : IOWatcher) (cs : List Call) (c : Call) :
    runCalls ev fd io (cs ++ [c]) = apply ev fd (runCalls ev fd io cs) c := by
  simp [runCalls]

theorem wantStep_empty_stop (m : BitVec 32) : wantStep ∅ (.stop m) = ∅ :=
  Set.eq_empty_iff_forall_notMem.2 (fun _ he => he.1)

/-- Once empty, the described set stays empty under stops. -/
theorem want_eq_empty_of_trapped {cs : List Call} (h : Trapped cs) : want cs = ∅ := by
  obtain ⟨pre, m, mid, rfl, -, hm, hmid⟩ := h
  induction mid using List.reverseRecOn with
  | nil =>
    rw [want_append]
    ext e
    cases e with
    | read => simp [wantStep, maskSet, has, hm.1]
    | write => simp [wantStep, maskSet, has, hm.2]
  | append_singleton mid c ih =>
    obtain ⟨k, rfl⟩ := hmid c (by simp)
    rw [← List.cons_append, ← List.append_assoc, want_append, ih (fun c hc => hmid c (by simp [hc])),
      wantStep_empty_stop]

theorem Trapped.stop {cs : List Call} (h : Trapped cs) (k : BitVec 32) : Trapped (cs ++ [Call.stop k]) := by
  obtain ⟨pre, m, mid, rfl, hw, hm, hmid⟩ := h
  refine ⟨pre, m, mid ++ [Call.stop k], by simp, hw, hm, ?_⟩
  intro c hc
  rcases List.mem_append.1 hc with hc | hc
  · exact hmid c hc
  · exact ⟨k, List.mem_singleton.1 hc⟩

/-- A watcher that agrees with a set, as bits. -/
theorem armed_eq_iff {io : IOWatcher} {fd : Int} {S : Set IoEvent} :
    armed io fd = S ↔ ((io.active = true ∧ io.fd = fd ∧ io.r = true) ↔ IoEvent.read ∈ S) ∧
      ((io.active = true ∧ io.fd = fd ∧ io.w = true) ↔ IoEvent.write ∈ S) := by
  constructor
  · rintro rfl
    exact ⟨Iff.rfl, Iff.rfl⟩
  · rintro ⟨hr, hw⟩
    ext e
    cases e with
    | read => exact hr
    | write => exact hw

theorem armed_eq_empty_of_inactive {io : IOWatcher} (fd : Int) (h : io.active = false) : armed io fd = ∅ := by
  rw [armed_eq_iff]
  simp [h]

section
variable {ev : Libev} {fd : Int} {io : IOWatcher} {S : Set IoEvent}

theorem armed_start (m : BitVec 32) (h : armed io fd = S) (hfd : io.active = true → io.fd = fd) :
    armed (startIoEvent ev io fd m) fd = S ∪ maskSet m := by
  obtain ⟨ha, hf, hr, hw⟩ := startIoEvent_bits ev io fd m hfd
  rw [armed_eq_iff] at h ⊢
  simp only [ha, hf, hr, hw, true_and, Set.mem_union, maskSet, Set.mem_ofPred_eq, has, ← h.1, ← h.2, Bool.or_eq_true,
    Bool.and_eq_true]
  constructor
  · constructor
    · rintro (⟨h1, h2⟩ | h1)
      · exact .inl ⟨h1, hfd h1, h2⟩
      · exact .inr h1
    · rintro (⟨h1, -, h2⟩ | h1)
      · exact .inl ⟨h1, h2⟩
      · exact .inr h1
  · constructor
    · rintro (⟨h1, h2⟩ | h1)
      · exact .inl ⟨h1, hfd h1, h2⟩
      · exact .inr h1
    · rintro (⟨h1, -, h2⟩ | h1)
      · exact .inl ⟨h1, h2⟩
      · exact .inr h1

/-- **A stop of an active watcher** removes the mask. -/
theorem armed_stop_of_active (ev : Libev) (m : BitVec 32) (h : armed io fd = S) (ha : io.active = true) (hfd : io.fd = fd) :
    armed (stopIoEvent ev io fd m) fd = S \ maskSet m := by
  rw [armed_eq_iff] at h ⊢
  simp only [ha, hfd, true_and] at h
  simp only [Set.mem_sdiff, maskSet, Set.mem_ofPred_eq, has, ← h.1, ← h.2]
  rcases stopIoEvent_bits ev io fd m with ⟨h0, h1, he⟩ | ⟨-, h0, h1, hact, -, -⟩ | ⟨-, -, hact, hf, hr, hw⟩
  · rw [he]
    simp only [ha, hfd, true_and]
    constructor
    · cases hr : io.r <;> cases hm : m.getLsbD 0 <;> simp_all
    · cases hw : io.w <;> cases hm : m.getLsbD 1 <;> simp_all
  · simp only [hact]
    constructor
    · cases hr : io.r <;> cases hm : m.getLsbD 0 <;> simp_all
    · cases hw : io.w <;> cases hm : m.getLsbD 1 <;> simp_all
  · simp only [hact, hf, hr, hw, true_and]
    constructor
    · cases hr : io.r <;> cases hm : m.getLsbD 0 <;> simp_all
    · cases hw : io.w <;> cases hm : m.getLsbD 1 <;> simp_all

/-- **A stop of an inactive watcher** leaves it inactive, with its bits, unless both bits are stale and the mask is one
event: then the watcher is started for the other. -/
theorem stop_of_inactive (ev : Libev) (fd : Int) (m : BitVec 32) (ha : io.active = false) :
    ((stopIoEvent ev io fd m).active = false ∧ (stopIoEvent ev io fd m).r = io.r ∧
      (stopIoEvent ev io fd m).w = io.w) ∨
    (io.r = true ∧ io.w = true ∧ Single m ∧ (armed (stopIoEvent ev io fd m) fd).Nonempty) := by
  rcases stopIoEvent_bits ev io fd m with ⟨-, -, he⟩ | ⟨-, -, -, hact, hr, hw⟩ | ⟨hgone, hleft, hact, hf, hr, hw⟩
  · rw [he]
    exact .inl ⟨ha, rfl, rfl⟩
  · exact .inl ⟨hact, hr, hw⟩
  · refine .inr ?_
    have hbits : io.r = true ∧ io.w = true ∧ Single m := by
      unfold Single
      cases hb : io.r <;> cases hm : m.getLsbD 0 <;> cases hb' : io.w <;> cases hm' : m.getLsbD 1 <;> simp_all
    refine ⟨hbits.1, hbits.2.1, hbits.2.2, ?_⟩
    rcases hleft with h | h
    · exact ⟨IoEvent.read, hact, hf, hr.trans h⟩
    · exact ⟨IoEvent.write, hact, hf, hw.trans h⟩

end

/-! ## The two directions -/

/-- What the calls so far leave: the watcher agrees with the set they describe, an active one is on `fd`, and an
inactive one keeps both bits only when the calls are trapped. -/
structure Agrees (fd : Int) (cs : List Call) (io : IOWatcher) : Prop where
  set : armed io fd = want cs
  onFd : io.active = true → io.fd = fd
  stale : io.active = false → io.r = true → io.w = true → Trapped cs

section
variable {ev : Libev} {fd : Int} {io₀ : IOWatcher} {cs : List Call}

theorem agrees_start {pre : List Call} {io : IOWatcher} (m : BitVec 32) (h : armed io fd = want pre)
    (hfd : io.active = true → io.fd = fd) : Agrees fd (pre ++ [.start m]) (startIoEvent ev io fd m) := by
  obtain ⟨ha, hf, -, -⟩ := startIoEvent_bits ev io fd m hfd
  refine ⟨?_, fun _ => hf, fun hi => ?_⟩
  · rw [want_append]
    exact armed_start m h hfd
  · rw [ha] at hi
    cases hi

theorem agrees_stop {pre : List Call} {io : IOWatcher} (m : BitVec 32) (h : Agrees fd pre io)
    (hok : Trapped pre → ¬ Single m) : Agrees fd (pre ++ [.stop m]) (stopIoEvent ev io fd m) := by
  cases ha : io.active with
  | true =>
    have hset := armed_stop_of_active ev m h.set ha (h.onFd ha)
    rcases stopIoEvent_bits ev io fd m with ⟨-, -, he⟩ | ⟨-, h0, h1, hact, hr, hw⟩ | ⟨-, -, hact, hf, -, -⟩
    · refine ⟨by rw [want_append]; exact hset, fun _ => by rw [he]; exact h.onFd ha, fun hi => ?_⟩
      rw [he, ha] at hi
      cases hi
    · refine ⟨by rw [want_append]; exact hset, fun hi => absurd hi (by simp [hact]), fun _ hr' hw' => ?_⟩
      -- the watcher was armed for both events and the mask removes both
      rw [hr] at hr'
      rw [hw] at hw'
      have hboth : Both m := by
        rw [hr'] at h0
        rw [hw'] at h1
        exact ⟨by simpa using h0, by simpa using h1⟩
      refine ⟨pre, m, [], rfl, ?_, hboth, fun c hc => by cases hc⟩
      rw [← h.set]
      ext e
      cases e with
      | read => exact ⟨fun _ => trivial, fun _ => ⟨ha, h.onFd ha, hr'⟩⟩
      | write => exact ⟨fun _ => trivial, fun _ => ⟨ha, h.onFd ha, hw'⟩⟩
    · refine ⟨by rw [want_append]; exact hset, fun _ => hf, fun hi => ?_⟩
      rw [hact] at hi
      cases hi
  | false =>
    have hempty : want pre = ∅ := by rw [← h.set]; exact armed_eq_empty_of_inactive fd ha
    rcases stop_of_inactive ev fd m ha with ⟨hact, hr, hw⟩ | ⟨hr, hw, hs, -⟩
    · refine ⟨?_, fun hi => absurd hi (by simp [hact]), fun _ hr' hw' => ?_⟩
      · rw [want_append, hempty, armed_eq_empty_of_inactive fd hact, wantStep_empty_stop]
      · exact (h.stale ha (hr ▸ hr') (hw ▸ hw')).stop m
    · exact absurd hs (hok (h.stale ha hr hw))

/-- **Careful calls keep the watcher in step**, whatever the allocation left in its fields. -/
theorem agrees_of_careful (ev : Libev) (fd : Int) (hinact : io₀.active = false) {m₀ : BitVec 32} (h : Careful (.start m₀ :: cs)) :
    ∀ pre, pre <+: .start m₀ :: cs → pre = [] ∨ Agrees fd pre (runCalls ev fd io₀ pre) := by
  intro pre
  induction pre using List.reverseRecOn with
  | nil => exact fun _ => .inl rfl
  | append_singleton pre c ih =>
    intro hpre
    refine .inr ?_
    rw [runCalls_append]
    rcases ih ((List.prefix_append pre [c]).trans hpre) with rfl | hag
    · -- the first call is the start
      have hc : c = .start m₀ := by
        obtain ⟨t, ht⟩ := hpre
        rw [List.nil_append, List.cons_append] at ht
        exact (List.cons.inj ht).1
      subst hc
      refine agrees_start m₀ ?_ (fun ha => ?_)
      · exact armed_eq_empty_of_inactive fd hinact
      · rw [show runCalls ev fd io₀ [] = io₀ from rfl, hinact] at ha
        cases ha
    · cases c with
      | start m => exact agrees_start m hag.set hag.onFd
      | stop m => exact agrees_stop m hag (h pre m hpre)

/-- **As long as the watcher is in step**, trapped calls leave it stopped with both bits stale. -/
theorem stale_of_trapped {pre : List Call} (htr : Trapped pre)
    (h : ∀ p, p <+: pre → armed (runCalls ev fd io₀ p) fd = want p) :
    (runCalls ev fd io₀ pre).active = false ∧ (runCalls ev fd io₀ pre).r = true ∧
      (runCalls ev fd io₀ pre).w = true := by
  obtain ⟨q, m, mid, rfl, hq, hm, hmid⟩ := htr
  induction mid using List.reverseRecOn with
  | nil =>
    have hall := h q (List.prefix_append _ _)
    rw [hq] at hall
    have hr : IoEvent.read ∈ armed (runCalls ev fd io₀ q) fd := by rw [hall]; trivial
    have hw : IoEvent.write ∈ armed (runCalls ev fd io₀ q) fd := by rw [hall]; trivial
    have hr' : (runCalls ev fd io₀ q).r = true := hr.2.2
    have hw' : (runCalls ev fd io₀ q).w = true := hw.2.2
    rw [runCalls_append]
    simp only [apply]
    rcases stopIoEvent_bits ev (runCalls ev fd io₀ q) fd m with ⟨h0, -, -⟩ | ⟨-, -, -, hact, h1, h2⟩ |
      ⟨-, hleft, -⟩
    · rw [hr', hm.1] at h0
      cases h0
    · exact ⟨hact, h1.trans hr', h2.trans hw'⟩
    · rw [hr', hm.1, hw', hm.2] at hleft
      simp at hleft
  | append_singleton mid c ih =>
    obtain ⟨k, rfl⟩ := hmid c (by simp)
    have hassoc : q ++ Call.stop m :: (mid ++ [Call.stop k]) = (q ++ Call.stop m :: mid) ++ [Call.stop k] := by simp
    have hmid' : ∀ c ∈ mid, ∃ k, c = Call.stop k := fun c hc => hmid c (by simp [hc])
    rw [hassoc] at h ⊢
    obtain ⟨hact, hr, hw⟩ := ih (fun p hp => h p (hp.trans (List.prefix_append _ _))) hmid'
    have hset := h _ (List.prefix_refl _)
    rw [want_eq_empty_of_trapped (Trapped.stop ⟨q, m, mid, rfl, hq, hm, hmid'⟩ k), runCalls_append] at hset
    rw [runCalls_append]
    simp only [apply] at hset ⊢
    rcases stop_of_inactive ev fd k hact with ⟨h0, h1, h2⟩ | ⟨-, -, -, hne⟩
    · exact ⟨h0, h1.trans hr, h2.trans hw⟩
    · rw [hset] at hne
      exact absurd hne Set.not_nonempty_empty

theorem careful_of_tracks (h : Tracks ev fd io₀ cs) : Careful cs := by
  intro pre m hpre htr hs
  have hprefix : pre <+: cs := (List.prefix_append pre _).trans hpre
  obtain ⟨-, hr, hw⟩ := stale_of_trapped htr (fun p hp => h p (hp.trans hprefix))
  have hset := h _ hpre
  rw [want_eq_empty_of_trapped (htr.stop m), runCalls_append] at hset
  simp only [apply] at hset
  -- the stop of one event starts the watcher for the other
  rcases stopIoEvent_bits ev (runCalls ev fd io₀ pre) fd m with ⟨h0, h1, -⟩ | ⟨-, h0, h1, -⟩ | ⟨-, hleft, ha, hf, h0, h1⟩
  · rw [hr, Bool.true_and] at h0
    rw [hw, Bool.true_and] at h1
    exact hs (h0.trans h1.symm)
  · rw [hr, Bool.true_and, Bool.not_eq_false'] at h0
    rw [hw, Bool.true_and, Bool.not_eq_false'] at h1
    exact hs (h0.trans h1.symm)
  · have hne : (armed (stopIoEvent ev (runCalls ev fd io₀ pre) fd m) fd).Nonempty := by
      rcases hleft with hl | hl
      · exact ⟨IoEvent.read, ha, hf, h0.trans hl⟩
      · exact ⟨IoEvent.write, ha, hf, h1.trans hl⟩
    rw [hset] at hne
    exact Set.not_nonempty_empty hne

end

/-- **When a watcher's mask behaves as a set**: for every watcher `creat_io_event` makes, every descriptor and every
sequence of calls that begins with a start, the watcher is armed for the described set after each call exactly
when no stop of one event follows a stop of both, without a start between them. -/
theorem mask_is_set_iff (ev : Libev) (fd₀ fd : Int) (events₀ m₀ : BitVec 32) (cs : List Call) :
    Tracks ev fd (creatIoEvent fd₀ events₀) (.start m₀ :: cs) ↔ Careful (.start m₀ :: cs) := by
  constructor
  · exact careful_of_tracks
  · intro hc pre hpre
    have hinact : (creatIoEvent fd₀ events₀).active = false := rfl
    rcases agrees_of_careful ev fd hinact hc pre hpre with rfl | hag
    · exact armed_eq_empty_of_inactive fd rfl
    · exact hag.set

/-- libev 4: `ev_io_start` clears `EV__IOFDSET`, `ev_io_stop` leaves `events` alone. -/
def libev : Libev where
  onStart e := e &&& ~~~evIofdset
  onStop e := e
  start_keeps e i hi := by
    match i, hi with
    | 0, _ => simp [evIofdset]
    | 1, _ => simp [evIofdset]
  stop_keeps _ _ _ := rfl

/-- Both events are started, both are stopped, and then `WRITE` is stopped once more. -/
def stopTwice : List Call := [.start (READ ||| WRITE), .stop (READ ||| WRITE), .stop WRITE]

/-- **A stop can arm a watcher**: the second stop of `WRITE` reads the stale mask of the stopped watcher and starts it
for `READ`. -/
theorem stop_rearms_stopped_watcher :
    maskSet (READ ||| WRITE) ≠ ∅ ∧ want stopTwice = ∅ ∧
      armed (runCalls libev 5 (creatIoEvent 0 0) stopTwice) 5 = {IoEvent.read} := by
  have hrun : runCalls libev 5 (creatIoEvent 0 0) stopTwice = ⟨true, 5, 0x1⟩ := by decide
  refine ⟨?_, ?_, ?_⟩
  · intro h
    have hmem : IoEvent.read ∈ maskSet (READ ||| WRITE) := (by decide : has (READ ||| WRITE) .read = true)
    rw [h] at hmem
    exact hmem
  · refine want_eq_empty_of_trapped ⟨[.start (READ ||| WRITE)], READ ||| WRITE, [.stop WRITE], rfl, ?_, ?_, ?_⟩
    · ext e
      cases e with
      | read => exact ⟨fun _ => trivial, fun _ => .inr (by decide : has (READ ||| WRITE) .read = true)⟩
      | write => exact ⟨fun _ => trivial, fun _ => .inr (by decide : has (READ ||| WRITE) .write = true)⟩
    · exact ⟨by decide, by decide⟩
    · intro c hc
      exact ⟨WRITE, List.mem_singleton.1 hc⟩
  · rw [hrun, armed_eq_iff]
    exact ⟨⟨fun _ => rfl, fun _ => ⟨rfl, rfl, by decide⟩⟩, ⟨fun h => absurd h.2.2 (by decide), fun h => by cases h⟩⟩

end EventLoop
end Xrtc
