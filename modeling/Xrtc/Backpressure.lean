import Mathlib.Algebra.Order.BigOperators.Group.Finset
import Xrtc.Delivery
/-!
# Backpressure — notification pipes that fill up

`pipe()` is called without `O_NONBLOCK`: a `notify` on a pipe that holds `c` tokens waits for its reader.
`boundedStep c` is the pipeline with such pipes, `blockedOn` says which thread a blocked one waits for.  Signaling
worker, RTC server and RTC worker can wait for each other in a circle (`notify_cycle_reached`); a circle takes `c + 1`
items in each of three queues, so `3 * c + 2` items under way are still too few for one (`no_notify_cycle`).
-/
namespace Xrtc
namespace Pipeline

variable {ns : Nat} {n : WorkerNum}

inductive Thread (ns : Nat) (n : WorkerNum) where
  | sig (i : Fin ns)
  | server
  | worker (j : Fin n.val)
  | accept
  deriving DecidableEq

/-- The thread whose reads the given one waits for, when that one is inside a `notify` on a full pipe. -/
def blockedOn (c : Nat) (s : St ns n) : Thread ns n → Option (Thread ns n)
  | .sig i => match s.sig i with
    | .notifyServer => if c ≤ s.serverPipe then some .server else none
    | _ => none
  | .server => match s.server with
    | .notify j => if c ≤ s.workerPipe j then some (.worker j) else none
    | _ => none
  | .worker j => match s.worker j with
    | .notify i => if c ≤ (s.sigPipe i).length then some (.sig i) else none
    | _ => none
  | .accept => match s.accept with
    | .notify i => if c ≤ (s.sigPipe i).length then some (.sig i) else none
    | _ => none

def Label.thread : Label ns n → Thread ns n
  | .pushRequest i _ => .sig i
  | .sig i => .sig i
  | .server => .server
  | .worker j => .worker j
  | .accept _ => .accept
  | .dispatch => .accept

/-- The pipeline over pipes of `c` tokens. -/
def boundedStep (c : Nat) (s : St ns n) (l : Label ns n) : Option (St ns n) :=
  if blockedOn c s l.thread = none then step s l else none

structure NotifyCycle (c : Nat) (s : St ns n) (i : Fin ns) (j : Fin n.val) : Prop where
  sig : blockedOn c s (.sig i) = some .server
  server : blockedOn c s .server = some (.worker j)
  worker : blockedOn c s (.worker j) = some (.sig i)

/-! ## What is under way -/

def SigPc.carries : SigPc → Nat
  | .send _ => 1
  | _ => 0

def ServerPc.carries : ServerPc n → Nat
  | .route _ => 1
  | _ => 0

def WorkerPc.carries : WorkerPc ns → Nat
  | .process _ => 1
  | _ => 0

def AcceptPc.carries : AcceptPc ns → Nat
  | .dispatch _ => 1
  | .produce _ _ => 1
  | _ => 0

/-- Messages and accepted descriptors in a queue or on their way to the next one. -/
def underWay (s : St ns n) : Nat :=
  (∑ i, (s.sig i).carries + s.serverQueue.length + s.server.carries) +
    (∑ j, (s.workerQueue j).length + ∑ j, (s.worker j).carries + ∑ i, (s.sigQueue i).length) +
    (s.accept.carries + ∑ i, (s.connQueue i).length)

/-- A push request or a descriptor is taken up only while fewer than `3 * c + 2` items are under way. -/
def Admits (c : Nat) (s : St ns n) : Label ns n → Prop
  | .pushRequest _ _ => underWay s < 3 * c + 2
  | .accept (some _) => underWay s < 3 * c + 2
  | _ => True

instance (c : Nat) (s : St ns n) : ∀ l, Decidable (Admits c s l)
  | .pushRequest _ _ => inferInstanceAs (Decidable (underWay s < 3 * c + 2))
  | .accept (some _) => inferInstanceAs (Decidable (underWay s < 3 * c + 2))
  | .sig _ => .isTrue trivial
  | .server => .isTrue trivial
  | .worker _ => .isTrue trivial
  | .accept none => .isTrue trivial
  | .dispatch => .isTrue trivial

section Moves
variable {s s' : St ns n}

theorem sum_length_tail {I A : Type} [Fintype I] [DecidableEq I] {g : I → List A} {i : I} {a : A} {rest : List A}
    (h : g i = a :: rest) : ∑ k, (Function.update g i rest k).length ≤ ∑ k, (g k).length := by
  have hsum := Flow.sum_update_add List.length g i rest
  rw [h, List.length_cons] at hsum
  omega

theorem sum_length_push {I A : Type} [Fintype I] [DecidableEq I] (g : I → List A) (i : I) (a : A) :
    ∑ k, (Function.update g i (g i ++ [a]) k).length = ∑ k, (g k).length + 1 := by
  have hsum := Flow.sum_update_add List.length g i (g i ++ [a])
  rw [List.length_append, List.length_singleton] at hsum
  omega

/-- A signaling worker's move adds nothing to what is under way when it puts no more into the server's queue than it
held. -/
theorem underWay_sig_le {i : Fin ns} {pc : SigPc} (hsig : s'.sig = Function.update s.sig i pc)
    (hserver : s'.server = s.server) (hworker : s'.worker = s.worker) (haccept : s'.accept = s.accept)
    (hwq : s'.workerQueue = s.workerQueue) (hsq : ∑ k, (s'.sigQueue k).length ≤ ∑ k, (s.sigQueue k).length)
    (hcq : ∑ k, (s'.connQueue k).length ≤ ∑ k, (s.connQueue k).length)
    (h : s'.serverQueue.length + pc.carries ≤ s.serverQueue.length + (s.sig i).carries) :
    underWay s' ≤ underWay s := by
  have hsum := Flow.sum_update_add SigPc.carries s.sig i pc
  unfold underWay
  rw [hsig, hserver, hworker, haccept, hwq]
  omega

theorem underWay_worker_le {j : Fin n.val} {pc : WorkerPc ns} (hworker : s'.worker = Function.update s.worker j pc)
    (hserver : s'.server = s.server) (hsig : s'.sig = s.sig) (haccept : s'.accept = s.accept)
    (hsq : s'.serverQueue = s.serverQueue) (hcq : s'.connQueue = s.connQueue)
    (h : ∑ k, (s'.workerQueue k).length + ∑ k, (s'.sigQueue k).length + pc.carries ≤
      ∑ k, (s.workerQueue k).length + ∑ k, (s.sigQueue k).length + (s.worker j).carries) :
    underWay s' ≤ underWay s := by
  have hsum := Flow.sum_update_add WorkerPc.carries s.worker j pc
  unfold underWay
  rw [hworker, hserver, hsig, haccept, hsq, hcq]
  omega

theorem underWay_pushRequest {i : Fin ns} (r : PushReq) (hi : s.sig i = .idle) :
    underWay (pushRequest s i r) = underWay s + 1 := by
  have hsum := Flow.sum_update_add SigPc.carries s.sig i (.send s.sent.length)
  have hidle : (s.sig i).carries = 0 := by rw [hi]; rfl
  have hsend : (SigPc.send s.sent.length).carries = 1 := rfl
  simp only [underWay, pushRequest, setSig]
  omega

theorem underWay_sigMove {i : Fin ns} (hm : SigMove s i s') : underWay s' ≤ underWay s := by
  cases hm with
  | send hpc =>
    refine underWay_sig_le rfl rfl rfl rfl rfl le_rfl le_rfl ?_
    rw [hpc]
    simp [setSig, SigPc.carries]
  | pop hpc hq => exact underWay_sig_le rfl rfl rfl rfl rfl (sum_length_tail hq) le_rfl (by rw [hpc]; exact le_rfl)
  | take hpc hq => exact underWay_sig_le rfl rfl rfl rfl rfl le_rfl (sum_length_tail hq) (by rw [hpc]; exact le_rfl)
  | readConn hpc _ | readMsg hpc _ | notifyServer hpc | popNone hpc _ | answer hpc _ | unknown hpc _ | takeNone hpc _
  | newConn hpc => exact underWay_sig_le rfl rfl rfl rfl rfl le_rfl le_rfl (by rw [hpc]; exact le_rfl)

theorem underWay_serverMove (hm : ServerMove s s') : underWay s' ≤ underWay s := by
  cases hm with
  | read hpc _ | popNone hpc _ | notify hpc =>
    simp [underWay, hpc, ServerPc.carries]
  | pop hpc hq =>
    simp only [underWay, hpc, hq, ServerPc.carries, List.length_cons]
    omega
  | noWorker hpc hr =>
    simp only [underWay, hpc, ServerPc.carries]
    omega
  | @route m j hpc hr =>
    simp only [underWay, hpc, ServerPc.carries, sum_length_push]
    omega

theorem underWay_workerMove {j : Fin n.val} (hm : WorkerMove s j s') : underWay s' ≤ underWay s := by
  cases hm with
  | read hpc _ | popNone hpc _ | notify hpc =>
    exact underWay_worker_le rfl rfl rfl rfl rfl rfl (by rw [hpc]; exact le_rfl)
  | @pop m rest hpc hq =>
    refine underWay_worker_le rfl rfl rfl rfl rfl rfl ?_
    have hsum := Flow.sum_update_add List.length s.workerQueue j rest
    rw [hq, List.length_cons] at hsum
    rw [hpc]
    simp only [setWorker, WorkerPc.carries]
    omega
  | process hpc _ _ =>
    refine underWay_worker_le rfl rfl rfl rfl rfl rfl ?_
    rw [hpc]
    simp only [setWorker, WorkerPc.carries, sum_length_push]
    omega
  | noSender hpc _ _ | unknown hpc _ =>
    refine underWay_worker_le rfl rfl rfl rfl rfl rfl ?_
    rw [hpc]
    simp [setWorker, WorkerPc.carries]

theorem underWay_dispatchMove (hm : DispatchMove s s') : underWay s' ≤ underWay s := by
  cases hm with
  | choose hpc _ | crash hpc _ | notify hpc => simp [underWay, hpc, AcceptPc.carries]
  | produce hpc =>
    simp only [underWay, hpc, AcceptPc.carries, sum_length_push]
    omega

/-- **Only a push request and an accepted descriptor add to what is under way.** -/
theorem underWay_step {c : Nat} {l : Label ns n} (hle : underWay s ≤ 3 * c + 2) (hok : Admits c s l)
    (hs : step s l = some s') : underWay s' ≤ 3 * c + 2 := by
  cases step_move hs with
  | pushRequest r hi =>
    rw [underWay_pushRequest r hi]
    exact hok
  | sig hm => exact (underWay_sigMove hm).trans hle
  | server hm => exact (underWay_serverMove hm).trans hle
  | worker hm => exact (underWay_workerMove hm).trans hle
  | acceptFailed hi => exact hle
  | accept hi =>
    have hlt : underWay s < 3 * c + 2 := hok
    simp only [underWay, hi, AcceptPc.carries] at hlt ⊢
    omega
  | dispatch hm => exact (underWay_dispatchMove hm).trans hle

/-! ## A circle needs `3 * c + 3` items -/

theorem blockedOn_sig {c : Nat} {i : Fin ns} {t : Thread ns n} (h : blockedOn c s (.sig i) = some t) :
    s.sig i = .notifyServer ∧ c ≤ s.serverPipe := by
  simp only [blockedOn] at h
  split at h
  · rename_i hpc
    split at h
    · rename_i hc
      exact ⟨hpc, hc⟩
    · cases h
  · cases h

theorem blockedOn_server {c : Nat} {j : Fin n.val} (h : blockedOn c s .server = some (.worker j)) :
    s.server = .notify j ∧ c ≤ s.workerPipe j := by
  simp only [blockedOn] at h
  split at h
  · rename_i hpc
    split at h
    · rename_i hc
      cases h
      exact ⟨hpc, hc⟩
    · cases h
  · cases h

theorem blockedOn_worker {c : Nat} {i : Fin ns} {j : Fin n.val} (h : blockedOn c s (.worker j) = some (.sig i)) :
    s.worker j = .notify i ∧ c ≤ (s.sigPipe i).length := by
  simp only [blockedOn] at h
  split at h
  · rename_i hpc
    split at h
    · rename_i hc
      cases h
      exact ⟨hpc, hc⟩
    · cases h
  · cases h

theorem notes_length : ∀ notes : List Note, notes.length = notes.count .rtcMsg + notes.count .newConn
  | [] => rfl
  | .rtcMsg :: notes => by
    have ih := notes_length notes
    simp only [List.length_cons, List.count_cons_self, List.count_cons_of_ne (show Note.rtcMsg ≠ .newConn by decide)]
    omega
  | .newConn :: notes => by
    have ih := notes_length notes
    simp only [List.length_cons, List.count_cons_self, List.count_cons_of_ne (show Note.newConn ≠ .rtcMsg by decide)]
    omega

/-- **Every full pipe and every thread blocked on it stand for items that are under way.** -/
theorem NotifyCycle.underWay_le {c : Nat} {i : Fin ns} {j : Fin n.val} (h : NotifyCycle c s i j) (hb : Balance s) :
    3 * c + 3 ≤ underWay s := by
  obtain ⟨hsig, hserverPipe⟩ := blockedOn_sig h.sig
  obtain ⟨hserver, hworkerPipe⟩ := blockedOn_server h.server
  obtain ⟨hworker, hsigPipe⟩ := blockedOn_worker h.worker
  have howes1 : 1 ≤ ∑ k, (s.sig k).owesServer := by
    have hle := Finset.single_le_sum_of_canonicallyOrdered (f := fun k => (s.sig k).owesServer) (Finset.mem_univ i)
    simpa [hsig, SigPc.owesServer] using hle
  have howes2 : s.server.owes j = 1 := by simp [hserver, ServerPc.owes]
  have howes3 : 1 ≤ ∑ k, (s.worker k).owes i := by
    have hle := Finset.single_le_sum_of_canonicallyOrdered (f := fun k => (s.worker k).owes i) (Finset.mem_univ j)
    simpa [hworker, WorkerPc.owes] using hle
  have hqueue1 := hb.server
  have hqueue2 := hb.worker j
  have hqueue3 := hb.sig i
  have hqueue4 := hb.conn i
  have hnotes := notes_length (s.sigPipe i)
  have hsum2 := Finset.single_le_sum_of_canonicallyOrdered (f := fun k => (s.workerQueue k).length) (Finset.mem_univ j)
  have hsum3 := Finset.single_le_sum_of_canonicallyOrdered (f := fun k => (s.sigQueue k).length) (Finset.mem_univ i)
  have hsum4 := Finset.single_le_sum_of_canonicallyOrdered (f := fun k => (s.connQueue k).length) (Finset.mem_univ i)
  unfold underWay
  omega

end Moves

/-! ## Runs -/

theorem boundedStep_step {c : Nat} {s s' : St ns n} {l : Label ns n} (hs : boundedStep c s l = some s') :
    step s l = some s' := by
  unfold boundedStep at hs
  split at hs
  · exact hs
  · cases hs

/-- **No circle of blocked threads** while push requests and descriptors are taken up only with fewer than `3 * c + 2`
items under way, for pipes of any capacity `c`, any numbers of workers and any order of steps. -/
theorem no_notify_cycle (c : Nat) (s : St ns n) (h : Lts.Via (boundedStep c) (Admits c) init s) (i : Fin ns)
    (j : Fin n.val) : ¬ NotifyCycle c s i j := by
  have hinv : Balance s ∧ underWay s ≤ 3 * c + 2 := by
    refine Lts.Via.invariant (I := fun s => Balance s ∧ underWay s ≤ 3 * c + 2) ⟨balance_init, ?_⟩ ?_ h
    · simp [underWay, init, SigPc.carries, ServerPc.carries, WorkerPc.carries, AcceptPc.carries]
    · intro s l s' hi hok hs
      have hstep := boundedStep_step hs
      exact ⟨balance_step hi.1 hstep, underWay_step hi.2 hok hstep⟩
  intro hcycle
  have hle := hcycle.underWay_le hinv.1
  omega

/-! ## A circle is for ever -/

section Forever
variable {c : Nat} {s s' : St ns n} {i : Fin ns} {j : Fin n.val}

/-- The threads of the circle stay where they are and nobody takes a token out of their pipes. -/
theorem NotifyCycle.keep (h : NotifyCycle c s i j) (hsig : s'.sig i = s.sig i) (hserver : s'.server = s.server)
    (hworker : s'.worker j = s.worker j) (h1 : s.serverPipe ≤ s'.serverPipe) (h2 : s.workerPipe j ≤ s'.workerPipe j)
    (h3 : (s.sigPipe i).length ≤ (s'.sigPipe i).length) : NotifyCycle c s' i j := by
  obtain ⟨hpc1, hfull1⟩ := blockedOn_sig h.sig
  obtain ⟨hpc2, hfull2⟩ := blockedOn_server h.server
  obtain ⟨hpc3, hfull3⟩ := blockedOn_worker h.worker
  constructor
  · simp only [blockedOn, hsig, hpc1, if_pos (hfull1.trans h1)]
  · simp only [blockedOn, hserver, hpc2, if_pos (hfull2.trans h2)]
  · simp only [blockedOn, hworker, hpc3, if_pos (hfull3.trans h3)]

theorem length_update_push {g : Fin ns → List Note} {k : Fin ns} (x : Note) (i : Fin ns) :
    (g i).length ≤ (Function.update g k (g k ++ [x]) i).length := by
  rw [Function.update_apply]
  split
  · rename_i he
    rw [he, List.length_append]
    exact Nat.le_add_right _ _
  · exact le_rfl

theorem NotifyCycle.sigMove (h : NotifyCycle c s i j) {k : Fin ns} (hk : k ≠ i) (hm : SigMove s k s') :
    NotifyCycle c s' i j := by
  cases hm with
  | notifyServer hpc =>
    exact h.keep (Function.update_of_ne hk.symm _ _) rfl rfl (Nat.le_add_right _ _) le_rfl le_rfl
  | readConn _ _ | readMsg _ _ =>
    refine h.keep (Function.update_of_ne hk.symm _ _) rfl rfl le_rfl le_rfl ?_
    simp only [setSig, Function.update_of_ne hk.symm]
    exact le_rfl
  | send _ | popNone _ _ | pop _ _ | answer _ _ | unknown _ _ | takeNone _ _ | take _ _ | newConn _ =>
    exact h.keep (Function.update_of_ne hk.symm _ _) rfl rfl le_rfl le_rfl le_rfl

theorem NotifyCycle.workerMove (h : NotifyCycle c s i j) {k : Fin n.val} (hk : k ≠ j) (hm : WorkerMove s k s') :
    NotifyCycle c s' i j := by
  cases hm with
  | read hpc hp =>
    refine h.keep rfl rfl (Function.update_of_ne hk.symm _ _) le_rfl ?_ le_rfl
    simp only [setWorker, Function.update_of_ne hk.symm]
    exact le_rfl
  | notify hpc =>
    exact h.keep rfl rfl (Function.update_of_ne hk.symm _ _) le_rfl le_rfl (length_update_push _ i)
  | popNone _ _ | pop _ _ | process _ _ _ | noSender _ _ _ | unknown _ _ =>
    exact h.keep rfl rfl (Function.update_of_ne hk.symm _ _) le_rfl le_rfl le_rfl

/-- **A circle never dissolves**: its threads take no step and the others leave it as it is. -/
theorem NotifyCycle.step (h : NotifyCycle c s i j) {l : Label ns n} (hs : boundedStep c s l = some s') :
    NotifyCycle c s' i j := by
  have hfree : blockedOn c s l.thread = none := by
    unfold boundedStep at hs
    split at hs
    · rename_i hfree
      exact hfree
    · cases hs
  cases step_move (boundedStep_step hs) with
  | @pushRequest k r hi =>
    have hk : k ≠ i := by
      rintro rfl
      simp [Label.thread, h.sig] at hfree
    exact h.keep (Function.update_of_ne hk.symm _ _) rfl rfl le_rfl le_rfl le_rfl
  | @sig k s' hm =>
    have hk : k ≠ i := by
      rintro rfl
      simp [Label.thread, h.sig] at hfree
    exact h.sigMove hk hm
  | server hm => simp [Label.thread, h.server] at hfree
  | @worker k s' hm =>
    have hk : k ≠ j := by
      rintro rfl
      simp [Label.thread, h.worker] at hfree
    exact h.workerMove hk hm
  | acceptFailed hi => exact h
  | accept hi => exact h.keep rfl rfl rfl le_rfl le_rfl le_rfl
  | dispatch hm =>
    cases hm with
    | choose _ _ | crash _ _ | produce _ => exact h.keep rfl rfl rfl le_rfl le_rfl le_rfl
    | notify _ => exact h.keep rfl rfl rfl le_rfl le_rfl (length_update_push _ i)

/-- From a circle on, every run stays in it. -/
theorem NotifyCycle.forever (h : NotifyCycle c s i j) (hr : Lts.Reachable (boundedStep c) s s') :
    NotifyCycle c s' i j :=
  Lts.Reachable.invariant (I := fun s => NotifyCycle c s i j) h (fun _ _ _ hi hs => hi.step hs) hr

end Forever

/-! ## Six push requests over pipes of one token -/

def firstSig : Fin 1 := ⟨0, Nat.zero_lt_one⟩

def onlyWorker : Fin WorkerNum.one.val := ⟨0, Nat.zero_lt_one⟩

def somePush : Label 1 WorkerNum.one := .pushRequest firstSig pushA

/-- Two requests reach the RTC worker, two the RTC server, the fifth lies in the server's queue. -/
def fiveRequests : List (Label 1 WorkerNum.one) :=
  let send : List (Label 1 WorkerNum.one) := [somePush, .sig firstSig, .sig firstSig]
  let serve : List (Label 1 WorkerNum.one) := [.server, .server, .server]
  let work : List (Label 1 WorkerNum.one) := [.worker onlyWorker, .worker onlyWorker, .worker onlyWorker]
  send ++ serve ++ [.server] ++ work ++ [.worker onlyWorker] ++ send ++ serve ++ [.server] ++ work ++ send ++ serve ++
    [.server] ++ send ++ serve ++ send

theorem no_notify_cycle_fiveRequests : ∃ s : St 1 WorkerNum.one,
    Lts.run (Lts.guarded (Admits 1) (boundedStep 1)) init fiveRequests = some s ∧
    blockedOn 1 s .server = some (.worker onlyWorker) ∧ blockedOn 1 s (.worker onlyWorker) = some (.sig firstSig) ∧
    ¬ NotifyCycle 1 s firstSig onlyWorker := by
  have hsome : (Lts.run (Lts.guarded (Admits 1) (boundedStep 1)) (init : St 1 WorkerNum.one) fiveRequests).isSome =
      true := by decide
  obtain ⟨s, hs⟩ := Option.isSome_iff_exists.1 hsome
  have hend : (Lts.run (Lts.guarded (Admits 1) (boundedStep 1)) (init : St 1 WorkerNum.one) fiveRequests).map
      (fun s => (blockedOn 1 s .server, blockedOn 1 s (.worker onlyWorker))) =
      some (some (.worker onlyWorker), some (.sig firstSig)) := by decide
  rw [hs, Option.map_some, Option.some.injEq, Prod.mk.injEq] at hend
  exact ⟨s, hs, hend.1, hend.2, no_notify_cycle 1 s (Lts.Via.of_run .start hs) firstSig onlyWorker⟩

/-- A sixth request, and the signaling worker waits as well. -/
def sixRequests : List (Label 1 WorkerNum.one) := fiveRequests ++ [somePush, .sig firstSig]

theorem notify_cycle_reached : ¬ ∀ (c : Nat) (ns : Nat) (n : WorkerNum) (s : St ns n), 1 ≤ c →
    Lts.Reachable (boundedStep c) init s → ∀ i j, ¬ NotifyCycle c s i j := by
  intro hall
  have hsome : (Lts.run (boundedStep 1) (init : St 1 WorkerNum.one) sixRequests).isSome = true := by decide
  obtain ⟨s, hs⟩ := Option.isSome_iff_exists.1 hsome
  have hend : (Lts.run (boundedStep 1) (init : St 1 WorkerNum.one) sixRequests).map
      (fun s => (blockedOn 1 s (.sig firstSig), blockedOn 1 s .server, blockedOn 1 s (.worker onlyWorker))) =
      some (some .server, some (.worker onlyWorker), some (.sig firstSig)) := by decide
  rw [hs, Option.map_some, Option.some.injEq, Prod.mk.injEq, Prod.mk.injEq] at hend
  exact hall 1 1 WorkerNum.one s le_rfl (Lts.Reachable.of_run hs) firstSig onlyWorker ⟨hend.1, hend.2.1, hend.2.2⟩

end Pipeline
end Xrtc
