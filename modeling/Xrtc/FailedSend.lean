import Xrtc.Delivery
import Xrtc.Request
/-!
# FailedSend — sends whose pipe write fails

`RtcServer::send_rtc_msg`, `RtcWorker::send_rtc_msg`, `SignalingWorker::send_rtc_msg` and
`SignalingWorker::notify_new_conn` queue their item and then write a token; when the write fails they return -1 and leave
the item queued.  The system is that of `Pipeline` with every write's return value in its label: a sender whose `notify`
returned -1 goes back to its event loop without a token.  A queue is then longer than its tokens and the sends and
receives in progress by exactly the sends to it that failed.
-/
namespace Xrtc
namespace FailedSend

open Pipeline (Hop Surplus setSig setWorker)

/-- Queue an item, then notify; `written` is what `write(2)` returned. -/
def send {α : Type} (written : Int) (item : α) (queue : List α) : Int × List α :=
  (Request.notify written, queue ++ [item])

variable {W : Type}

def serverSendRtcMsg (written : Int) (msg : RtcMsg W) (queue : List (RtcMsg W)) : Int × List (RtcMsg W) :=
  send written msg queue

def workerSendRtcMsg (written : Int) (msg : RtcMsg W) (queue : List (RtcMsg W)) : Int × List (RtcMsg W) :=
  send written msg queue

def sigSendRtcMsg (written : Int) (msg : RtcMsg W) (queue : List (RtcMsg W)) : Int × List (RtcMsg W) :=
  send written msg queue

def notifyNewConn (written : Int) (fd : Int) (queue : List Int) : Int × List Int :=
  send written fd queue

variable {ns : Nat} {n : WorkerNum}

/-- The threads and queues, and how many sends to each queue have failed. -/
structure St (ns : Nat) (n : WorkerNum) where
  base : Pipeline.St ns n
  failed : Hop ns n → Nat

def init : St ns n := ⟨Pipeline.init, fun _ => 0⟩

/-- A thread whose next statement is a write: where it is after the write failed, and whose token is missing. -/
def failedWrite (s : Pipeline.St ns n) : Pipeline.Label ns n → Option (Pipeline.St ns n × Hop ns n)
  | .sig i => match s.sig i with
    | .notifyServer => some (setSig s i .idle, .server)
    | _ => none
  | .server => match s.server with
    | .notify j => some ({ s with server := .idle }, .worker j)
    | _ => none
  | .worker j => match s.worker j with
    | .notify i => some (setWorker s j .idle, .sig i)
    | _ => none
  | .dispatch => match s.accept with
    | .notify i => some ({ s with accept := .idle }, .conn i)
    | _ => none
  | _ => none

/-- A step of a thread; the second part of the label is what its `write(2)`, if it makes one, returns. -/
def step (s : St ns n) (l : Pipeline.Label ns n × Int) : Option (St ns n) :=
  match failedWrite s.base l.1 with
  | some (base, hop) =>
    if Request.notify l.2 = 0 then (Pipeline.step s.base l.1).map (fun base => { s with base := base })
    else some ⟨base, Function.update s.failed hop (s.failed hop + 1)⟩
  | none => (Pipeline.step s.base l.1).map (fun base => { s with base := base })

def queueLength (s : Pipeline.St ns n) : Hop ns n → Nat
  | .server => s.serverQueue.length
  | .worker j => (s.workerQueue j).length
  | .sig i => (s.sigQueue i).length
  | .conn i => (s.connQueue i).length

def tokens (s : Pipeline.St ns n) : Hop ns n → Nat
  | .server => s.serverPipe
  | .worker j => s.workerPipe j
  | .sig i => (s.sigPipe i).count .rtcMsg
  | .conn i => (s.sigPipe i).count .newConn

/-- The senders that have pushed and not yet written, and the receiver that has read and not yet popped. -/
def inProgress (s : Pipeline.St ns n) : Hop ns n → Nat
  | .server => ∑ i, (s.sig i).owesServer + s.server.due
  | .worker j => s.server.owes j + (s.worker j).due
  | .sig i => ∑ j, (s.worker j).owes i + (s.sig i).dueMsg
  | .conn i => s.accept.owes i + (s.sig i).dueConn

theorem queueLength_eq {f : Hop ns n → Nat} {s : Pipeline.St ns n} (h : Surplus f s) (hop : Hop ns n) :
    queueLength s hop = tokens s hop + inProgress s hop + f hop := by
  cases hop with
  | server =>
    have := h.server
    simp only [queueLength, tokens, inProgress]
    omega
  | worker j =>
    have := h.worker j
    simp only [queueLength, tokens, inProgress]
    omega
  | sig i =>
    have := h.sig i
    simp only [queueLength, tokens, inProgress]
    omega
  | conn i =>
    have := h.conn i
    simp only [queueLength, tokens, inProgress]
    omega

/-! ## A failed write leaves one item more without a token -/

section Failed
variable {f : Hop ns n → Nat} {s : Pipeline.St ns n}

theorem surplus_failed_server {i : Fin ns} (h : Surplus f s) (hpc : s.sig i = .notifyServer) :
    Surplus (Function.update f .server (f .server + 1)) (setSig s i .idle) := by
  refine ⟨?_, fun j => ?_, fun k => ?_, fun k => ?_⟩
  · have howed : Pipeline.SigPc.notifyServer.owesServer = 1 := rfl
    have hidle : Pipeline.SigPc.idle.owesServer = 0 := rfl
    have hsum := Flow.sum_update_add Pipeline.SigPc.owesServer s.sig i .idle
    have hserver := h.server
    rw [hpc, howed, hidle] at hsum
    simp only [setSig, Function.update_self]
    omega
  · simpa [setSig] using h.worker j
  · have hdue := Flow.apply_update_eq (f := Pipeline.SigPc.dueMsg) (g := s.sig) (v := .idle) (by rw [hpc]; rfl) k
    simpa [setSig, hdue] using h.sig k
  · have hdue := Flow.apply_update_eq (f := Pipeline.SigPc.dueConn) (g := s.sig) (v := .idle) (by rw [hpc]; rfl) k
    simpa [setSig, hdue] using h.conn k

theorem surplus_failed_worker {j : Fin n.val} (h : Surplus f s) (hpc : s.server = .notify j) :
    Surplus (Function.update f (.worker j) (f (.worker j) + 1)) { s with server := .idle } := by
  refine ⟨?_, fun k => ?_, fun k => ?_, fun k => ?_⟩
  · simpa [hpc, Pipeline.ServerPc.due] using h.server
  · have hk := h.worker k
    simp only [hpc, Pipeline.ServerPc.owes] at hk ⊢
    by_cases hj : j = k
    · subst hj
      simp only [if_true, Function.update_self] at hk ⊢
      omega
    · have hne : (Hop.worker k : Hop ns n) ≠ .worker j := by simpa [eq_comm] using hj
      simp only [if_neg hj, Function.update_of_ne hne] at hk ⊢
      exact hk
  · simpa using h.sig k
  · simpa using h.conn k

theorem surplus_failed_sig {j : Fin n.val} {i : Fin ns} (h : Surplus f s) (hpc : s.worker j = .notify i) :
    Surplus (Function.update f (.sig i) (f (.sig i) + 1)) (setWorker s j .idle) := by
  refine ⟨?_, fun k => ?_, fun k => ?_, fun k => ?_⟩
  · simpa [setWorker] using h.server
  · have hdue := Flow.apply_update_eq (f := Pipeline.WorkerPc.due) (g := s.worker) (v := .idle) (by rw [hpc]; rfl) k
    simpa [setWorker, hdue] using h.worker k
  · have hk := h.sig k
    have howed : (Pipeline.WorkerPc.notify i).owes k = if i = k then 1 else 0 := rfl
    have hidle : (Pipeline.WorkerPc.idle : Pipeline.WorkerPc ns).owes k = 0 := rfl
    have hsum := Flow.sum_update_add (Pipeline.WorkerPc.owes k) s.worker j .idle
    rw [hpc, howed, hidle] at hsum
    simp only [setWorker]
    by_cases hi : i = k
    · subst hi
      simp only [if_true, Function.update_self] at hsum ⊢
      omega
    · have hne : (Hop.sig k : Hop ns n) ≠ .sig i := by simpa [eq_comm] using hi
      simp only [if_neg hi, Function.update_of_ne hne] at hsum ⊢
      omega
  · simpa [setWorker] using h.conn k

theorem surplus_failed_conn {i : Fin ns} (h : Surplus f s) (hpc : s.accept = .notify i) :
    Surplus (Function.update f (.conn i) (f (.conn i) + 1)) { s with accept := .idle } := by
  refine ⟨?_, fun k => ?_, fun k => ?_, fun k => ?_⟩
  · simpa using h.server
  · simpa using h.worker k
  · simpa using h.sig k
  · have hk := h.conn k
    simp only [hpc, Pipeline.AcceptPc.owes] at hk ⊢
    by_cases hi : i = k
    · subst hi
      simp only [if_true, Function.update_self] at hk ⊢
      omega
    · have hne : (Hop.conn k : Hop ns n) ≠ .conn i := by simpa [eq_comm] using hi
      simp only [if_neg hi, Function.update_of_ne hne] at hk ⊢
      exact hk

theorem surplus_failedWrite {s' : Pipeline.St ns n} {l : Pipeline.Label ns n} {hop : Hop ns n} (h : Surplus f s)
    (hf : failedWrite s l = some (s', hop)) : Surplus (Function.update f hop (f hop + 1)) s' := by
  cases l with
  | pushRequest i r => cases hf
  | accept fd => cases hf
  | sig i =>
    simp only [failedWrite] at hf
    split at hf
    · rename_i hpc
      cases hf
      exact surplus_failed_server h hpc
    · cases hf
  | server =>
    simp only [failedWrite] at hf
    split at hf
    · rename_i j hpc
      cases hf
      exact surplus_failed_worker h hpc
    · cases hf
  | worker j =>
    simp only [failedWrite] at hf
    split at hf
    · rename_i i hpc
      cases hf
      exact surplus_failed_sig h hpc
    · cases hf
  | dispatch =>
    simp only [failedWrite] at hf
    split at hf
    · rename_i i hpc
      cases hf
      exact surplus_failed_conn h hpc
    · cases hf

end Failed

theorem surplus_step {s s' : St ns n} {l : Pipeline.Label ns n × Int} (h : Surplus s.failed s.base)
    (hs : step s l = some s') : Surplus s'.failed s'.base := by
  unfold step at hs
  split at hs
  · rename_i base hop hf
    split at hs
    · obtain ⟨base', hb, rfl⟩ := Option.map_eq_some_iff.1 hs
      exact Pipeline.surplus_step h hb
    · cases hs
      exact surplus_failedWrite h hf
  · obtain ⟨base', hb, rfl⟩ := Option.map_eq_some_iff.1 hs
    exact Pipeline.surplus_step h hb

theorem reachable_surplus {s : St ns n} (h : Lts.Reachable step init s) : Surplus s.failed s.base :=
  h.invariant (I := fun s => Surplus s.failed s.base) (Pipeline.surplus_zero_iff.2 Pipeline.balance_init)
    (fun _ _ _ hi hs => surplus_step hi hs)

/-- A call that returns -1 leaves its queue alone. -/
def NoEffect {α : Type} (call : α → List α → Int × List α) : Prop :=
  ∀ item queue, (call item queue).1 = -1 → (call item queue).2 = queue

theorem send_noEffect_iff {α : Type} [Inhabited α] (written : Int) :
    NoEffect (fun (item : α) queue => send written item queue) ↔ written = 4 := by
  unfold NoEffect send Request.notify
  constructor
  · intro h
    by_contra hne
    have hqueue := h default [] (if_neg hne)
    cases hqueue
  · intro h item queue hret
    rw [if_pos h] at hret
    cases hret

/-- **A send has no effect when it fails, exactly if its write does not fail.**  Each of the four calls leaves its queue
alone when it returns -1 if and only if its write takes the whole token; and in every run, whatever writes fail, a queue
is no longer than its unread tokens and the sends and receives in progress if and only if no send to it has failed. -/
theorem failed_send_iff :
    (∀ written : Int, (NoEffect (serverSendRtcMsg (W := Fin ns) written) ↔ written = 4) ∧
      (NoEffect (workerSendRtcMsg (W := Fin ns) written) ↔ written = 4) ∧
      (NoEffect (sigSendRtcMsg (W := Fin ns) written) ↔ written = 4) ∧ (NoEffect (notifyNewConn written) ↔ written = 4)) ∧
    ∀ s : St ns n, Lts.Reachable step init s → ∀ hop : Hop ns n,
      queueLength s.base hop ≤ tokens s.base hop + inProgress s.base hop ↔ s.failed hop = 0 := by
  constructor
  · intro written
    have : Inhabited (RtcMsg (Fin ns)) := ⟨{}⟩
    exact ⟨send_noEffect_iff written, send_noEffect_iff written, send_noEffect_iff written, send_noEffect_iff written⟩
  · intro s h hop
    have hlen := queueLength_eq (reachable_surplus h) hop
    omega

/-- A push whose write to the RTC server's pipe fails. -/
def fullPipe : List (Pipeline.Label 1 WorkerNum.one × Int) :=
  [(.pushRequest ⟨0, Nat.zero_lt_one⟩ Pipeline.pushA, 0), (.sig ⟨0, Nat.zero_lt_one⟩, 0), (.sig ⟨0, Nat.zero_lt_one⟩, -1)]

theorem failed_send_iff_fullPipe : ∃ s : St 1 WorkerNum.one, Lts.run step init fullPipe = some s ∧
    s.failed .server = 1 ∧ ¬queueLength s.base .server ≤ tokens s.base .server + inProgress s.base .server := by
  have hend : (Lts.run step (init : St 1 WorkerNum.one) fullPipe).map (fun s => s.failed .server) = some 1 := by decide
  obtain ⟨s, hs, hfailed⟩ := Option.map_eq_some_iff.1 hend
  refine ⟨s, hs, hfailed, ?_⟩
  rw [failed_send_iff.2 s (Lts.Reachable.of_run hs) .server, hfailed]
  decide

theorem failed_send_stays : (¬ ∀ written : Int, NoEffect (notifyNewConn written)) ∧
    ¬ ∀ s : St 1 WorkerNum.one, Lts.Reachable step init s → ∀ hop : Hop 1 WorkerNum.one,
      queueLength s.base hop ≤ tokens s.base hop + inProgress s.base hop := by
  constructor
  · intro hall
    cases hall (-1) 9 [] rfl
  · intro hall
    have hend : (Lts.run step (init : St 1 WorkerNum.one) fullPipe).map
        (fun s => (queueLength s.base .server, tokens s.base .server + inProgress s.base .server)) = some (1, 0) := by
      decide
    obtain ⟨s, hs, hlen⟩ := Option.map_eq_some_iff.1 hend
    have hle := hall s (Lts.Reachable.of_run hs) .server
    rw [Prod.mk.injEq] at hlen
    omega

end FailedSend
end Xrtc
