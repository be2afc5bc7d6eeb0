import Xrtc.Backpressure
/-!
# BackpressureTight — the bound on what is under way is the best one

For every capacity from 1 on, `3 * c + 3` push requests of one stream on one signaling worker are enough for a circle:
`c` replies fill the signaling worker's pipe and the next blocks the RTC worker, `c` messages fill the RTC worker's pipe
and the next blocks the RTC server, `c` more fill the server's pipe and the last blocks the signaling worker.
-/
namespace Xrtc
namespace Pipeline

variable {ns : Nat} {n : WorkerNum}

/-- The three threads of a circle and their pipes, and how many requests there were. -/
structure Ring (ns : Nat) (n : WorkerNum) where
  sig : SigPc
  serverPipe : Nat
  server : ServerPc n
  workerPipe : Nat
  worker : WorkerPc ns
  notes : Nat
  sent : Nat

def ring (s : St ns n) (i : Fin ns) (j : Fin n.val) : Ring ns n :=
  ⟨s.sig i, s.serverPipe, s.server, s.workerPipe j, s.worker j, (s.sigPipe i).length, s.sent.length⟩

/-- A reachable state looks so, and all requests were signaling worker `i`'s for RTC worker `j`. -/
def Reaches (c : Nat) (i : Fin ns) (j : Fin n.val) (ρ : Ring ns n) : Prop :=
  ∃ s, Lts.Reachable (boundedStep c) init s ∧ ring s i j = ρ ∧
    ∀ m ∈ s.sent, route n (s.msgs m).streamName = some j ∧ (s.msgs m).worker = some i

section Steps
variable {c : Nat} {i : Fin ns} {j : Fin n.val} {ρ : Ring ns n} {s s' : St ns n}

theorem reachable_unbounded (h : Lts.Reachable (boundedStep c) init s) : Lts.Reachable step init s :=
  Lts.Reachable.invariant (I := Lts.Reachable step init) .start
    (fun _ _ _ hi hs => .next hi trivial (boundedStep_step hs)) h

theorem reachable_next {l : Label ns n} (h : Lts.Reachable (boundedStep c) init s)
    (hfree : blockedOn c s l.thread = none) (hs : step s l = some s') : Lts.Reachable (boundedStep c) init s' := by
  refine .next h trivial (l := l) ?_
  unfold boundedStep
  rw [if_pos hfree, hs]

/-- `process_push_` with `RtcServer::push_msg`. -/
theorem Reaches.send {r : PushReq} (hr : route n r.streamName = some j) (hρ : ρ.sig = .idle) (h : Reaches c i j ρ) :
    Reaches c i j { ρ with sig := .notifyServer, sent := ρ.sent + 1 } := by
  obtain ⟨s, hs, rfl, honly⟩ := h
  have hsig : s.sig i = .idle := hρ
  have h1 := reachable_next (l := .pushRequest i r) hs (by simp [Label.thread, blockedOn, hsig])
    (show step s (.pushRequest i r) = some (pushRequest s i r) by simp [step, hsig])
  have hpc : (pushRequest s i r).sig i = .send s.sent.length := by simp [pushRequest, setSig]
  have h2 := reachable_next (l := .sig i) h1 (by simp [Label.thread, blockedOn, hpc])
    (by simp only [step, sigStep, hpc]; rfl)
  refine ⟨_, h2, by simp [ring, setSig, pushRequest], fun m hm => ?_⟩
  simp only [setSig, pushRequest, List.mem_append, List.mem_singleton] at hm ⊢
  rcases hm with hm | rfl
  · have hne : m ≠ s.sent.length := by
      rw [(reachable_msgInv (reachable_unbounded hs)).numbered] at hm
      exact Nat.ne_of_lt (List.mem_range.1 hm)
    rw [Function.update_of_ne hne]
    exact honly m hm
  · rw [Function.update_self]
    exact ⟨hr, rfl⟩

theorem Reaches.notifyServer (hρ : ρ.sig = .notifyServer) (hc : ρ.serverPipe < c) (h : Reaches c i j ρ) :
    Reaches c i j { ρ with sig := .idle, serverPipe := ρ.serverPipe + 1 } := by
  obtain ⟨s, hs, rfl, honly⟩ := h
  have hsig : s.sig i = .notifyServer := hρ
  have hfree : ¬ c ≤ s.serverPipe := Nat.not_le.2 hc
  have h1 := reachable_next (l := .sig i) hs (by simp [Label.thread, blockedOn, hsig, hfree])
    (by simp only [step, sigStep, hsig]; rfl)
  exact ⟨_, h1, by simp [ring, setSig], honly⟩

/-- `RtcServer::process_rtc_msg` up to its `notify`: the token it reads has a message behind it. -/
theorem Reaches.serve {p : Nat} (hρ : ρ.server = .idle) (hp : ρ.serverPipe = p + 1) (h : Reaches c i j ρ) :
    Reaches c i j { ρ with serverPipe := p, server := .notify j } := by
  obtain ⟨s, hs, rfl, honly⟩ := h
  have hserver : s.server = .idle := hρ
  have hpipe : s.serverPipe = p + 1 := hp
  have h1 := reachable_next (l := .server) hs (by simp [Label.thread, blockedOn, hserver])
    (by simp only [step, serverStep, hserver, hpipe, Nat.add_eq_zero_iff, Nat.one_ne_zero, and_false, if_false]; rfl)
  obtain ⟨m, rest, hq⟩ := List.exists_cons_of_ne_nil
    ((reachable_balance (reachable_unbounded h1)).nonempty.1 rfl)
  have hqueue : s.serverQueue = m :: rest := hq
  have hm : m ∈ s.sent := (reachable_msgInv (reachable_unbounded hs)).flows.mem_entered (p := .serverQueue)
    (by simp [places, hqueue])
  have h2 := reachable_next (l := .server) h1 (by simp [Label.thread, blockedOn])
    (by simp only [step, serverStep, hqueue]; rfl)
  have h3 := reachable_next (l := .server) h2 (by simp [Label.thread, blockedOn])
    (by simp only [step, serverStep, (honly m hm).1]; rfl)
  exact ⟨_, h3, by simp [ring], honly⟩

theorem Reaches.pass (hρ : ρ.server = .notify j) (hc : ρ.workerPipe < c) (h : Reaches c i j ρ) :
    Reaches c i j { ρ with server := .idle, workerPipe := ρ.workerPipe + 1 } := by
  obtain ⟨s, hs, rfl, honly⟩ := h
  have hserver : s.server = .notify j := hρ
  have hfree : ¬ c ≤ s.workerPipe j := Nat.not_le.2 hc
  have h1 := reachable_next (l := .server) hs (by simp [Label.thread, blockedOn, hserver, hfree])
    (by simp only [step, serverStep, hserver]; rfl)
  exact ⟨_, h1, by simp [ring], honly⟩

/-- `RtcWorker::process_rtc_msg` up to the `notify` of its answer. -/
theorem Reaches.work {p : Nat} (hρ : ρ.worker = .idle) (hp : ρ.workerPipe = p + 1) (h : Reaches c i j ρ) :
    Reaches c i j { ρ with workerPipe := p, worker := .notify i } := by
  obtain ⟨s, hs, rfl, honly⟩ := h
  have hworker : s.worker j = .idle := hρ
  have hpipe : s.workerPipe j = p + 1 := hp
  have h1 := reachable_next (l := .worker j) hs (by simp [Label.thread, blockedOn, hworker])
    (by simp only [step, workerStep, hworker, hpipe, Nat.add_eq_zero_iff, Nat.one_ne_zero, and_false, if_false]; rfl)
  obtain ⟨m, rest, hq⟩ := List.exists_cons_of_ne_nil
    ((reachable_balance (reachable_unbounded h1)).nonempty.2.1 j (by simp [setWorker]))
  have hqueue : s.workerQueue j = m :: rest := hq
  have hinv := reachable_msgInv (reachable_unbounded hs)
  have hm : m ∈ s.sent := hinv.flows.mem_entered (p := .workerQueue j) (by simp [places, hqueue])
  have h2 := reachable_next (l := .worker j) h1 (by simp [Label.thread, blockedOn, setWorker])
    (by simp only [step, workerStep, setWorker, Function.update_self, hqueue]; rfl)
  have h3 := reachable_next (l := .worker j) h2 (by simp [Label.thread, blockedOn])
    (by simp only [step, workerStep, setWorker, Function.update_self, (hinv.made m hm).1, if_true, fillOffer,
      (honly m hm).2]; rfl)
  refine ⟨_, h3, by simp [ring], fun m' hm' => ?_⟩
  by_cases he : m' = m
  · subst he
    simpa using (honly m' hm).1
  · simpa [Function.update_of_ne he] using honly m' hm'

theorem Reaches.reply (hρ : ρ.worker = .notify i) (hc : ρ.notes < c) (h : Reaches c i j ρ) :
    Reaches c i j { ρ with worker := .idle, notes := ρ.notes + 1 } := by
  obtain ⟨s, hs, rfl, honly⟩ := h
  have hworker : s.worker j = .notify i := hρ
  have hfree : ¬ c ≤ (s.sigPipe i).length := Nat.not_le.2 hc
  have h1 := reachable_next (l := .worker j) hs (by simp [Label.thread, blockedOn, hworker, hfree])
    (by simp only [step, workerStep, hworker]; rfl)
  exact ⟨_, h1, by simp [ring, setWorker], honly⟩

/-! ## Filling the three pipes -/

/-- A request that goes all the way to the signaling worker's pipe. -/
theorem Reaches.roundTrip {r : PushReq} (hr : route n r.streamName = some j) (hc : 1 ≤ c) {g k : Nat} (hg : g < c)
    (h : Reaches c i j ⟨.idle, 0, .idle, 0, .idle, g, k⟩) : Reaches c i j ⟨.idle, 0, .idle, 0, .idle, g + 1, k + 1⟩ :=
  ((((((h.send hr rfl).notifyServer rfl hc).serve rfl rfl).pass rfl hc).work rfl rfl).reply rfl hg)

theorem reaches_notes {r : PushReq} (hr : route n r.streamName = some j) (hc : 1 ≤ c) :
    ∀ g, g ≤ c → Reaches c i j ⟨.idle, 0, .idle, 0, .idle, g, g⟩
  | 0, _ => ⟨init, .start, rfl, fun m hm => by cases hm⟩
  | g + 1, hg => (reaches_notes hr hc g (Nat.le_of_succ_le hg)).roundTrip hr hc hg

/-- The RTC worker is blocked, its pipe fills up. -/
theorem reaches_workerPipe {r : PushReq} (hr : route n r.streamName = some j) (hc : 1 ≤ c) :
    ∀ w, w ≤ c → Reaches c i j ⟨.idle, 0, .idle, w, .notify i, c, c + 1 + w⟩
  | 0, _ =>
    ((((reaches_notes hr hc c le_rfl).send hr rfl).notifyServer rfl hc).serve rfl rfl).pass rfl hc |>.work rfl rfl
  | w + 1, hw =>
    (((reaches_workerPipe hr hc w (Nat.le_of_succ_le hw)).send hr rfl).notifyServer rfl hc).serve rfl rfl |>.pass rfl hw

/-- The RTC server is blocked as well. -/
theorem reaches_serverPipe {r : PushReq} (hr : route n r.streamName = some j) (hc : 1 ≤ c) :
    ∀ p, p ≤ c → Reaches c i j ⟨.idle, p, .notify j, c, .notify i, c, c + 1 + c + 1 + p⟩
  | 0, _ => ((reaches_workerPipe hr hc c le_rfl).send hr rfl).notifyServer rfl hc |>.serve rfl rfl
  | p + 1, hp => ((reaches_serverPipe hr hc p (Nat.le_of_succ_le hp)).send hr rfl).notifyServer rfl hp

/-- **`3 * c + 3` requests are enough for a circle**, whatever the capacity `c ≥ 1` and the numbers of workers. -/
theorem notify_cycle_of_requests (hc : 1 ≤ c) (i : Fin ns) (r : PushReq) :
    ∃ (s : St ns n) (j : Fin n.val), Lts.Reachable (boundedStep c) init s ∧ s.sent.length = 3 * c + 3 ∧
      NotifyCycle c s i j := by
  obtain ⟨j, hr, -⟩ := route_eq n r.streamName
  obtain ⟨s, hs, hring, -⟩ := (reaches_serverPipe (i := i) hr hc c le_rfl).send hr rfl
  simp only [ring, Ring.mk.injEq] at hring
  obtain ⟨hsig, hpipe1, hserver, hpipe2, hworker, hpipe3, hsent⟩ := hring
  refine ⟨s, j, hs, by omega, ?_⟩
  constructor
  · simp [blockedOn, hsig, hpipe1]
  · simp [blockedOn, hserver, hpipe2]
  · simp [blockedOn, hworker, hpipe3]

end Steps

end Pipeline
end Xrtc
