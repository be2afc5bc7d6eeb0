import Xrtc.Flow
import Xrtc.PipelineMoves
/-!
# PipelineBalance — queues and their notification pipes

A queue is as long as its pipe has unread tokens, plus one for every sender that has pushed and not yet written, plus
one for a receiver that has read and not yet popped (`Balance`).  So a token that was read always finds its item, and
between sends and receives queue and pipe agree.
-/
namespace Xrtc
namespace Pipeline

variable {ns : Nat} {n : WorkerNum}

/-! ## Tokens owed and due -/

def SigPc.owesServer : SigPc → Nat
  | .notifyServer => 1
  | _ => 0

def SigPc.dueMsg : SigPc → Nat
  | .popMsg => 1
  | _ => 0

def SigPc.dueConn : SigPc → Nat
  | .takeConn => 1
  | _ => 0

def ServerPc.owes (j : Fin n.val) : ServerPc n → Nat
  | .notify j' => if j' = j then 1 else 0
  | _ => 0

def ServerPc.due : ServerPc n → Nat
  | .popMsg => 1
  | _ => 0

def WorkerPc.owes (i : Fin ns) : WorkerPc ns → Nat
  | .notify i' => if i' = i then 1 else 0
  | _ => 0

def WorkerPc.due : WorkerPc ns → Nat
  | .popMsg => 1
  | _ => 0

def AcceptPc.owes (i : Fin ns) : AcceptPc ns → Nat
  | .notify i' => if i' = i then 1 else 0
  | _ => 0

structure Balance (s : St ns n) : Prop where
  server : s.serverQueue.length = s.serverPipe + ∑ i, (s.sig i).owesServer + s.server.due
  worker : ∀ j, (s.workerQueue j).length = s.workerPipe j + s.server.owes j + (s.worker j).due
  sig : ∀ i, (s.sigQueue i).length = (s.sigPipe i).count .rtcMsg + ∑ j, (s.worker j).owes i + (s.sig i).dueMsg
  conn : ∀ i, (s.connQueue i).length = (s.sigPipe i).count .newConn + s.accept.owes i + (s.sig i).dueConn

/-- The queues, each with its pipe. -/
inductive Hop (ns : Nat) (n : WorkerNum) where
  | server
  | worker (j : Fin n.val)
  | sig (i : Fin ns)
  | conn (i : Fin ns)
  deriving DecidableEq

/-- Balance up to items for which no token was ever written. -/
structure Surplus (f : Hop ns n → Nat) (s : St ns n) : Prop where
  server : s.serverQueue.length = s.serverPipe + ∑ i, (s.sig i).owesServer + s.server.due + f .server
  worker : ∀ j, (s.workerQueue j).length = s.workerPipe j + s.server.owes j + (s.worker j).due + f (.worker j)
  sig : ∀ i, (s.sigQueue i).length =
    (s.sigPipe i).count .rtcMsg + ∑ j, (s.worker j).owes i + (s.sig i).dueMsg + f (.sig i)
  conn : ∀ i, (s.connQueue i).length =
    (s.sigPipe i).count .newConn + s.accept.owes i + (s.sig i).dueConn + f (.conn i)

theorem surplus_zero_iff {s : St ns n} : Surplus (fun _ => 0) s ↔ Balance s :=
  ⟨fun h => ⟨h.server, h.worker, h.sig, h.conn⟩, fun h => ⟨h.server, h.worker, h.sig, h.conn⟩⟩

/-! ## One thread moves -/

section Moves
variable {f : Hop ns n → Nat} {s s' : St ns n}

/-- A signaling worker moves: the three queues it works on change with their pipes. -/
theorem Surplus.sig_move (h : Surplus f s) {i : Fin ns} {pc : SigPc} (hsig : s'.sig = Function.update s.sig i pc)
    (hserver : s'.server = s.server) (hworker : s'.worker = s.worker) (haccept : s'.accept = s.accept)
    (hqueue : s'.workerQueue = s.workerQueue) (hpipe : s'.workerPipe = s.workerPipe)
    (h1 : s'.serverQueue.length + s.serverPipe + (s.sig i).owesServer =
      s.serverQueue.length + s'.serverPipe + pc.owesServer)
    (h2 : ∀ k, (s'.sigQueue k).length + (s.sigPipe k).count .rtcMsg + (s.sig k).dueMsg =
      (s.sigQueue k).length + (s'.sigPipe k).count .rtcMsg + (s'.sig k).dueMsg)
    (h3 : ∀ k, (s'.connQueue k).length + (s.sigPipe k).count .newConn + (s.sig k).dueConn =
      (s.connQueue k).length + (s'.sigPipe k).count .newConn + (s'.sig k).dueConn) : Surplus f s' := by
  obtain ⟨b1, b2, b3, b4⟩ := h
  refine ⟨?_, fun j => ?_, fun k => ?_, fun k => ?_⟩
  · have hsum := Flow.sum_update_add SigPc.owesServer s.sig i pc
    rw [hsig, hserver]
    omega
  · rw [hqueue, hpipe, hserver, hworker]
    exact b2 j
  · have hk := b3 k
    have hd := h2 k
    rw [hworker]
    omega
  · have hk := b4 k
    have hd := h3 k
    rw [haccept]
    omega

/-- A signaling worker moves without touching a pipe of its own. -/
theorem Surplus.sig_quiet (h : Surplus f s) {i : Fin ns} {pc : SigPc} (hsig : s'.sig = Function.update s.sig i pc)
    (hserver : s'.server = s.server) (hworker : s'.worker = s.worker) (haccept : s'.accept = s.accept)
    (hqueue : s'.workerQueue = s.workerQueue) (hpipe : s'.workerPipe = s.workerPipe) (hsq : s'.sigQueue = s.sigQueue)
    (hsp : s'.sigPipe = s.sigPipe) (hcq : s'.connQueue = s.connQueue)
    (h1 : s'.serverQueue.length + s.serverPipe + (s.sig i).owesServer =
      s.serverQueue.length + s'.serverPipe + pc.owesServer)
    (h2 : pc.dueMsg = (s.sig i).dueMsg) (h3 : pc.dueConn = (s.sig i).dueConn) : Surplus f s' := by
  refine h.sig_move hsig hserver hworker haccept hqueue hpipe h1 (fun k => ?_) (fun k => ?_)
  · rw [hsq, hsp, hsig, Flow.apply_update_eq h2]
  · rw [hcq, hsp, hsig, Flow.apply_update_eq h3]

/-- The RTC server moves. -/
theorem Surplus.server_move (h : Surplus f s) (hsig : s'.sig = s.sig) (hworker : s'.worker = s.worker)
    (haccept : s'.accept = s.accept) (hqueue : s'.sigQueue = s.sigQueue) (hpipe : s'.sigPipe = s.sigPipe)
    (hconn : s'.connQueue = s.connQueue)
    (h1 : s'.serverQueue.length + s.serverPipe + s.server.due = s.serverQueue.length + s'.serverPipe + s'.server.due)
    (h2 : ∀ j, (s'.workerQueue j).length + s.workerPipe j + s.server.owes j =
      (s.workerQueue j).length + s'.workerPipe j + s'.server.owes j) : Surplus f s' := by
  obtain ⟨b1, b2, b3, b4⟩ := h
  refine ⟨?_, fun j => ?_, fun k => ?_, fun k => ?_⟩
  · rw [hsig]
    omega
  · have hj := b2 j
    have hd := h2 j
    rw [hworker]
    omega
  · rw [hqueue, hpipe, hworker, hsig]
    exact b3 k
  · rw [hconn, hpipe, haccept, hsig]
    exact b4 k

/-- RTC worker `j` moves. -/
theorem Surplus.worker_move (h : Surplus f s) {j : Fin n.val} {pc : WorkerPc ns}
    (hworker : s'.worker = Function.update s.worker j pc) (hsig : s'.sig = s.sig) (hserver : s'.server = s.server)
    (haccept : s'.accept = s.accept) (hqueue : s'.serverQueue = s.serverQueue) (hpipe : s'.serverPipe = s.serverPipe)
    (hconn : s'.connQueue = s.connQueue)
    (h1 : ∀ k, (s'.workerQueue k).length + s.workerPipe k + (s.worker k).due =
      (s.workerQueue k).length + s'.workerPipe k + (s'.worker k).due)
    (h2 : ∀ k, (s'.sigQueue k).length + (s.sigPipe k).count .rtcMsg + (s.worker j).owes k =
      (s.sigQueue k).length + (s'.sigPipe k).count .rtcMsg + pc.owes k)
    (h3 : ∀ k, (s'.sigPipe k).count .newConn = (s.sigPipe k).count .newConn) : Surplus f s' := by
  obtain ⟨b1, b2, b3, b4⟩ := h
  refine ⟨?_, fun k => ?_, fun k => ?_, fun k => ?_⟩
  · rw [hqueue, hpipe, hsig, hserver]
    exact b1
  · have hk := b2 k
    have hd := h1 k
    rw [hserver]
    omega
  · have hk := b3 k
    have hd := h2 k
    have hsum := Flow.sum_update_add (WorkerPc.owes k) s.worker j pc
    rw [hworker, hsig]
    omega
  · rw [hconn, h3, haccept, hsig]
    exact b4 k

/-- RTC worker `j` moves without a read or a pop. -/
theorem Surplus.worker_quiet (h : Surplus f s) {j : Fin n.val} {pc : WorkerPc ns}
    (hworker : s'.worker = Function.update s.worker j pc) (hsig : s'.sig = s.sig) (hserver : s'.server = s.server)
    (haccept : s'.accept = s.accept) (hqueue : s'.serverQueue = s.serverQueue) (hpipe : s'.serverPipe = s.serverPipe)
    (hconn : s'.connQueue = s.connQueue) (hwq : s'.workerQueue = s.workerQueue) (hwp : s'.workerPipe = s.workerPipe)
    (hdue : pc.due = (s.worker j).due)
    (h2 : ∀ k, (s'.sigQueue k).length + (s.sigPipe k).count .rtcMsg + (s.worker j).owes k =
      (s.sigQueue k).length + (s'.sigPipe k).count .rtcMsg + pc.owes k)
    (h3 : ∀ k, (s'.sigPipe k).count .newConn = (s.sigPipe k).count .newConn) : Surplus f s' := by
  refine h.worker_move hworker hsig hserver haccept hqueue hpipe hconn (fun k => ?_) h2 h3
  rw [hworker, hwq, hwp, Flow.apply_update_eq hdue]

/-- The accept thread moves. -/
theorem Surplus.accept_move (h : Surplus f s) (hsig : s'.sig = s.sig) (hserver : s'.server = s.server)
    (hworker : s'.worker = s.worker) (hqueue : s'.serverQueue = s.serverQueue) (hpipe : s'.serverPipe = s.serverPipe)
    (hwq : s'.workerQueue = s.workerQueue) (hwp : s'.workerPipe = s.workerPipe) (hsq : s'.sigQueue = s.sigQueue)
    (h1 : ∀ k, (s'.connQueue k).length + (s.sigPipe k).count .newConn + s.accept.owes k =
      (s.connQueue k).length + (s'.sigPipe k).count .newConn + s'.accept.owes k)
    (h2 : ∀ k, (s'.sigPipe k).count .rtcMsg = (s.sigPipe k).count .rtcMsg) : Surplus f s' := by
  obtain ⟨b1, b2, b3, b4⟩ := h
  refine ⟨?_, fun j => ?_, fun k => ?_, fun k => ?_⟩
  · rw [hqueue, hpipe, hsig, hserver]
    exact b1
  · rw [hwq, hwp, hserver, hworker]
    exact b2 j
  · rw [hsq, h2, hworker, hsig]
    exact b3 k
  · have hk := b4 k
    have hd := h1 k
    rw [hsig]
    omega

end Moves

/-! ## Every step -/

section Steps
variable {f : Hop ns n → Nat} {s s' : St ns n}

theorem surplus_pushRequest (h : Surplus f s) {i : Fin ns} (r : PushReq) (hi : s.sig i = .idle) :
    Surplus f (pushRequest s i r) :=
  h.sig_quiet rfl rfl rfl rfl rfl rfl rfl rfl rfl (by rw [hi]; rfl) (by rw [hi]; rfl) (by rw [hi]; rfl)

theorem surplus_sigMove (h : Surplus f s) {i : Fin ns} (hm : SigMove s i s') : Surplus f s' := by
  cases hm with
  | readConn hpc hp =>
    refine h.sig_move rfl rfl rfl rfl rfl rfl (by rw [hpc]; rfl) (fun k => ?_) (fun k => ?_)
    · simp only [setSig, Function.update_apply]
      split <;> simp_all [SigPc.dueMsg]
    · simp only [setSig, Function.update_apply]
      split <;> simp_all [SigPc.dueConn]
      omega
  | readMsg hpc hp =>
    refine h.sig_move rfl rfl rfl rfl rfl rfl (by rw [hpc]; rfl) (fun k => ?_) (fun k => ?_)
    · simp only [setSig, Function.update_apply]
      split <;> simp_all [SigPc.dueMsg]
      omega
    · simp only [setSig, Function.update_apply]
      split <;> simp_all [SigPc.dueConn]
  | send hpc =>
    refine h.sig_quiet rfl rfl rfl rfl rfl rfl rfl rfl rfl ?_ (by rw [hpc]; rfl) (by rw [hpc]; rfl)
    simp only [setSig, hpc, SigPc.owesServer, List.length_append, List.length_singleton]
    omega
  | notifyServer hpc =>
    refine h.sig_quiet rfl rfl rfl rfl rfl rfl rfl rfl rfl ?_ (by rw [hpc]; rfl) (by rw [hpc]; rfl)
    simp only [setSig, hpc, SigPc.owesServer]
    omega
  | popNone hpc hq =>
    -- a token was read, so the queue is not empty
    have hk := h.sig i
    rw [hq, hpc] at hk
    simp only [SigPc.dueMsg, List.length_nil] at hk
    omega
  | pop hpc hq =>
    refine h.sig_move rfl rfl rfl rfl rfl rfl (by rw [hpc]; rfl) (fun k => ?_) (fun k => ?_)
    · simp only [setSig, Function.update_apply]
      split <;> simp_all [SigPc.dueMsg]
      omega
    · simp only [setSig, Function.update_apply]
      split <;> simp_all [SigPc.dueConn]
  | answer hpc hcmd =>
    exact h.sig_quiet rfl rfl rfl rfl rfl rfl rfl rfl rfl (by rw [hpc]; rfl) (by rw [hpc]; rfl) (by rw [hpc]; rfl)
  | unknown hpc hcmd =>
    exact h.sig_quiet rfl rfl rfl rfl rfl rfl rfl rfl rfl (by rw [hpc]; rfl) (by rw [hpc]; rfl) (by rw [hpc]; rfl)
  | takeNone hpc hq =>
    have hk := h.conn i
    rw [hq, hpc] at hk
    simp only [SigPc.dueConn, List.length_nil] at hk
    omega
  | take hpc hq =>
    refine h.sig_move rfl rfl rfl rfl rfl rfl (by rw [hpc]; rfl) (fun k => ?_) (fun k => ?_)
    · simp only [setSig, Function.update_apply]
      split <;> simp_all [SigPc.dueMsg]
    · simp only [setSig, Function.update_apply]
      split <;> simp_all [SigPc.dueConn]
      omega
  | newConn hpc =>
    exact h.sig_quiet rfl rfl rfl rfl rfl rfl rfl rfl rfl (by rw [hpc]; rfl) (by rw [hpc]; rfl) (by rw [hpc]; rfl)

theorem surplus_serverMove (h : Surplus f s) (hm : ServerMove s s') : Surplus f s' := by
  cases hm with
  | read hpc hp =>
    refine h.server_move rfl rfl rfl rfl rfl rfl ?_ (fun j => ?_)
    · simp only [hpc, ServerPc.due]
      omega
    · simp [hpc, ServerPc.owes]
  | popNone hpc hq =>
    have hb := h.server
    rw [hq, hpc] at hb
    simp only [ServerPc.due, List.length_nil] at hb
    omega
  | pop hpc hq =>
    refine h.server_move rfl rfl rfl rfl rfl rfl ?_ (fun j => ?_)
    · simp only [hpc, hq, ServerPc.due, List.length_cons]
      omega
    · simp [hpc, ServerPc.owes]
  | noWorker hpc hr =>
    exact h.server_move rfl rfl rfl rfl rfl rfl (by rw [hpc]; rfl) (fun j => by simp [hpc, ServerPc.owes])
  | route hpc hr =>
    refine h.server_move rfl rfl rfl rfl rfl rfl (by rw [hpc]; rfl) (fun j => ?_)
    simp only [hpc, ServerPc.owes, Function.update_apply]
    split <;> simp_all [eq_comm]
    omega
  | notify hpc =>
    refine h.server_move rfl rfl rfl rfl rfl rfl (by rw [hpc]; rfl) (fun k => ?_)
    simp only [hpc, ServerPc.owes, Function.update_apply]
    split <;> simp_all [eq_comm]
    omega

theorem surplus_workerMove (h : Surplus f s) {j : Fin n.val} (hm : WorkerMove s j s') : Surplus f s' := by
  cases hm with
  | read hpc hp =>
    refine h.worker_move rfl rfl rfl rfl rfl rfl rfl (fun k => ?_) (fun k => by rw [hpc]; rfl) (fun k => rfl)
    simp only [setWorker, Function.update_apply]
    split
    · rename_i he
      rw [he, hpc]
      simp only [WorkerPc.due]
      omega
    · rfl
  | popNone hpc hq =>
    have hb := h.worker j
    rw [hq, hpc] at hb
    simp only [WorkerPc.due, List.length_nil] at hb
    omega
  | pop hpc hq =>
    refine h.worker_move rfl rfl rfl rfl rfl rfl rfl (fun k => ?_) (fun k => by rw [hpc]; rfl) (fun k => rfl)
    simp only [setWorker, Function.update_apply]
    split <;> simp_all [WorkerPc.due]
    omega
  | process hpc hcmd hi =>
    refine h.worker_quiet rfl rfl rfl rfl rfl rfl rfl rfl rfl (by rw [hpc]; rfl) (fun k => ?_) (fun k => rfl)
    simp only [setWorker, hpc, WorkerPc.owes, Function.update_apply]
    split <;> simp_all [eq_comm]
    omega
  | noSender hpc hcmd hi =>
    exact h.worker_quiet rfl rfl rfl rfl rfl rfl rfl rfl rfl (by rw [hpc]; rfl) (fun k => by rw [hpc]; rfl)
      (fun k => rfl)
  | unknown hpc hcmd =>
    exact h.worker_quiet rfl rfl rfl rfl rfl rfl rfl rfl rfl (by rw [hpc]; rfl) (fun k => by rw [hpc]; rfl)
      (fun k => rfl)
  | notify hpc =>
    refine h.worker_quiet rfl rfl rfl rfl rfl rfl rfl rfl rfl (by rw [hpc]; rfl) (fun k => ?_) (fun k => ?_)
    · simp only [setWorker, hpc, WorkerPc.owes, Function.update_apply]
      split <;> simp_all [eq_comm]
      omega
    · simp only [setWorker, Function.update_apply]
      split <;> simp_all

theorem surplus_dispatchMove (h : Surplus f s) (hm : DispatchMove s s') : Surplus f s' := by
  cases hm with
  | choose hpc hlt =>
    exact h.accept_move rfl rfl rfl rfl rfl rfl rfl rfl (fun k => by rw [hpc]; rfl) (fun k => rfl)
  | crash hpc hlt =>
    exact h.accept_move rfl rfl rfl rfl rfl rfl rfl rfl (fun k => by rw [hpc]; rfl) (fun k => rfl)
  | produce hpc =>
    refine h.accept_move rfl rfl rfl rfl rfl rfl rfl rfl (fun k => ?_) (fun k => rfl)
    simp only [hpc, AcceptPc.owes, Function.update_apply]
    split <;> simp_all [eq_comm]
    omega
  | notify hpc =>
    refine h.accept_move rfl rfl rfl rfl rfl rfl rfl rfl (fun k => ?_) (fun k => ?_)
    · simp only [hpc, AcceptPc.owes, Function.update_apply]
      split <;> simp_all [eq_comm]
      omega
    · simp only [Function.update_apply]
      split <;> simp_all

/-- Every step of every thread keeps the surplus. -/
theorem surplus_step {l : Label ns n} (h : Surplus f s) (hs : step s l = some s') : Surplus f s' := by
  cases step_move hs with
  | pushRequest r hi => exact surplus_pushRequest h r hi
  | sig hm => exact surplus_sigMove h hm
  | server hm => exact surplus_serverMove h hm
  | worker hm => exact surplus_workerMove h hm
  | acceptFailed hi => exact h
  | accept hi => exact h.accept_move rfl rfl rfl rfl rfl rfl rfl rfl (fun k => by rw [hi]; rfl) (fun k => rfl)
  | dispatch hm => exact surplus_dispatchMove h hm

/-- **Every step of every thread keeps queues and pipes in balance.** -/
theorem balance_step {l : Label ns n} (h : Balance s) (hs : step s l = some s') : Balance s' :=
  surplus_zero_iff.1 (surplus_step (surplus_zero_iff.2 h) hs)

end Steps

theorem balance_init : Balance (init : St ns n) := by
  constructor
  · simp [init, SigPc.owesServer, ServerPc.due]
  · simp [init, ServerPc.owes, WorkerPc.due]
  · simp [init, WorkerPc.owes, SigPc.dueMsg]
  · simp [init, AcceptPc.owes, SigPc.dueConn]

theorem reachable_balance {s : St ns n} (h : Lts.Reachable step init s) : Balance s :=
  h.invariant balance_init (fun _ _ _ hi hs => balance_step hi hs)

end Pipeline
end Xrtc
