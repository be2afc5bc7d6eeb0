import Xrtc.Flow
import Xrtc.PipelineMoves
/-!
# PipelineFlow — where the messages are

Two flows (`Flow`) run through the threads.  `places` follows a message from the signaling worker that sends it back to
the one that answers it, queue by queue and hand by hand; `stages` follows it from the RTC server's queue to the RTC
worker that processes it.  The sender and the stream name, which no step changes, fix a message's path through both.
Each move of a thread is a hop on these paths, an entry, or nothing (`msgInv_step`).
-/
namespace Xrtc
namespace Pipeline

open Xrtc.Flow (Flows)

variable {ns : Nat} {n : WorkerNum}

/-- Where a message can be. -/
inductive Place (ns : Nat) (n : WorkerNum) where
  | sigHand (i : Fin ns)
  | serverQueue
  | serverHand
  | workerQueue (j : Fin n.val)
  | workerHand (j : Fin n.val)
  | sigQueue (i : Fin ns)
  | replyHand (i : Fin ns)
  | answered (i : Fin ns)
  deriving DecidableEq

/-- The way of a message through the RTC server. -/
inductive Stage (n : WorkerNum) where
  | serverQueue
  | serverHand
  | workerQueue (j : Fin n.val)
  | processed (j : Fin n.val)
  deriving DecidableEq

def SigPc.outgoing : SigPc → List Nat
  | .send m => [m]
  | _ => []

def SigPc.incoming : SigPc → List Nat
  | .answer m => [m]
  | _ => []

def ServerPc.held : ServerPc n → List Nat
  | .route m => [m]
  | _ => []

def WorkerPc.held : WorkerPc ns → List Nat
  | .process m => [m]
  | _ => []

def places (s : St ns n) : Place ns n → List Nat
  | .sigHand i => (s.sig i).outgoing
  | .serverQueue => s.serverQueue
  | .serverHand => s.server.held
  | .workerQueue j => s.workerQueue j
  | .workerHand j => (s.worker j).held
  | .sigQueue i => s.sigQueue i
  | .replyHand i => (s.sig i).incoming
  | .answered i => s.answered i

def stages (s : St ns n) : Stage n → List Nat
  | .serverQueue => s.serverQueue
  | .serverHand => s.server.held
  | .workerQueue j => s.workerQueue j
  | .processed j => s.processed j

/-- The path of a message sent by signaling worker `i` and routed to RTC worker `j`, the last place first. -/
def hops (i : Fin ns) (j : Fin n.val) : List (Place ns n) :=
  [.answered i, .replyHand i, .sigQueue i, .workerHand j, .workerQueue j, .serverHand, .serverQueue, .sigHand i]

def stageHops (j : Fin n.val) : List (Stage n) := [.processed j, .workerQueue j, .serverHand, .serverQueue]

def path (n : WorkerNum) (msgs : Nat → RtcMsg (Fin ns)) (m : Nat) : List (Place ns n) :=
  match (msgs m).worker, route n (msgs m).streamName with
  | some i, some j => hops i j
  | _, _ => []

def stagePath (n : WorkerNum) (msgs : Nat → RtcMsg (Fin ns)) (m : Nat) : List (Stage n) :=
  match route n (msgs m).streamName with
  | some j => stageHops j
  | none => []

theorem nodup_hops (i : Fin ns) (j : Fin n.val) : (hops i j).Nodup := by simp [hops]

theorem nodup_stageHops (j : Fin n.val) : (stageHops j).Nodup := by simp [stageHops]

/-- Every stream has a worker. -/
theorem route_eq (n : WorkerNum) (streamName : List UInt8) :
    ∃ j : Fin n.val, route n streamName = some j ∧ j.val = workerIndex n.val streamName := by
  have hlt := workerIndex_lt n streamName
  refine ⟨⟨workerIndex n.val streamName, hlt⟩, ?_, rfl⟩
  unfold route
  rw [(getWorker_eq n (List.length_finRange) streamName).2, List.getElem?_eq_getElem (by simpa using hlt)]
  simp

/-- The law of the messages. -/
structure MsgInv (s : St ns n) : Prop where
  flows : Flows (path n s.msgs) (places s) s.sent
  staged : Flows (stagePath n s.msgs) (stages s) s.pushed
  numbered : s.sent = List.range s.sent.length
  pushed : ∀ m ∈ s.pushed, m ∈ s.sent
  made : ∀ m ∈ s.sent, (s.msgs m).cmdno = cmdnoPush ∧ ∃ i, (s.msgs m).worker = some i
  popped : ∀ i, s.popped i = s.answered i ++ (s.sig i).incoming

section Paths
variable {s : St ns n}

/-- What the place of a message says about its sender and its worker. -/
theorem MsgInv.path_eq (h : MsgInv s) {p : Place ns n} {m : Nat} (hm : m ∈ places s p) :
    ∃ i j, (s.msgs m).cmdno = cmdnoPush ∧ (s.msgs m).worker = some i ∧ route n (s.msgs m).streamName = some j ∧
      path n s.msgs m = hops i j ∧ p ∈ hops i j ∧ stagePath n s.msgs m = stageHops j := by
  obtain ⟨hcmd, i, hi⟩ := h.made m (h.flows.mem_entered hm)
  obtain ⟨j, hj, -⟩ := route_eq n (s.msgs m).streamName
  have hpath : path n s.msgs m = hops i j := by
    unfold path
    rw [hi, hj]
  refine ⟨i, j, hcmd, hi, hj, hpath, ?_, ?_⟩
  · rw [← hpath]
    exact h.flows.onPath p m hm
  · unfold stagePath
    rw [hj]

end Paths

/-! ## What a step does to the two flows -/

section Effects
variable {s : St ns n}

theorem places_send {i : Fin ns} {m : Nat} (h : s.sig i = .send m) :
    places (setSig { s with serverQueue := s.serverQueue ++ [m], pushed := s.pushed ++ [m] } i .notifyServer) =
      Flow.hop (places s) (.sigHand i) .serverQueue m [] := by
  funext x
  cases x <;> simp only [places, Flow.hop, setSig, Function.update_apply, reduceCtorEq, if_false, if_true,
    Place.sigHand.injEq]
  · split <;> simp_all [SigPc.outgoing]
  · split <;> simp_all [SigPc.incoming]

theorem places_popMsg {i : Fin ns} {m : Nat} {rest : List Nat} (h : s.sig i = .popMsg) :
    places (setSig { s with
      sigQueue := Function.update s.sigQueue i rest
      popped := Function.update s.popped i (s.popped i ++ [m]) } i (.answer m)) =
      Flow.hop (places s) (.sigQueue i) (.replyHand i) m rest := by
  funext x
  cases x <;> simp only [places, Flow.hop, setSig, Function.update_apply, reduceCtorEq, if_false,
    Place.sigQueue.injEq, Place.replyHand.injEq]
  · split <;> simp_all [SigPc.outgoing]
  · split <;> simp_all [SigPc.incoming]

theorem places_answer {i : Fin ns} {m : Nat} (h : s.sig i = .answer m) :
    places (setSig { s with answered := Function.update s.answered i (s.answered i ++ [m]) } i .idle) =
      Flow.hop (places s) (.replyHand i) (.answered i) m [] := by
  funext x
  cases x <;> simp only [places, Flow.hop, setSig, Function.update_apply, reduceCtorEq, if_false,
    Place.replyHand.injEq, Place.answered.injEq]
  · split <;> simp_all [SigPc.outgoing]
  · split <;> simp_all [SigPc.incoming]

theorem places_serverPop {m : Nat} {rest : List Nat} (h : s.server = .popMsg) :
    places { s with serverQueue := rest, server := .route m } = Flow.hop (places s) .serverQueue .serverHand m rest := by
  funext x
  cases x <;> simp [places, Flow.hop, ServerPc.held, h]

theorem places_route {m : Nat} {j : Fin n.val} :
    places { s with
      workerQueue := Function.update s.workerQueue j (s.workerQueue j ++ [m]), server := .notify j } =
      Flow.hop (places s) .serverHand (.workerQueue j) m [] := by
  funext x
  cases x <;> simp only [places, Flow.hop, Function.update_apply, reduceCtorEq, if_false, if_true, ServerPc.held,
    Place.workerQueue.injEq]

theorem places_workerPop {j : Fin n.val} {m : Nat} {rest : List Nat} (h : s.worker j = .popMsg) :
    places (setWorker { s with
      workerQueue := Function.update s.workerQueue j rest
      processed := Function.update s.processed j (s.processed j ++ [m]) } j (.process m)) =
      Flow.hop (places s) (.workerQueue j) (.workerHand j) m rest := by
  funext x
  cases x <;> simp only [places, Flow.hop, setWorker, Function.update_apply, reduceCtorEq, if_false,
    Place.workerQueue.injEq, Place.workerHand.injEq]
  split <;> simp_all [WorkerPc.held]

theorem places_process {j : Fin n.val} {i : Fin ns} {m : Nat} (msgs : Nat → RtcMsg (Fin ns)) :
    places (setWorker { s with
      msgs := msgs, sigQueue := Function.update s.sigQueue i (s.sigQueue i ++ [m]) } j (.notify i)) =
      Flow.hop (places s) (.workerHand j) (.sigQueue i) m [] := by
  funext x
  cases x <;> simp only [places, Flow.hop, setWorker, Function.update_apply, reduceCtorEq, if_false,
    Place.workerHand.injEq, Place.sigQueue.injEq]
  split <;> simp_all [WorkerPc.held]

theorem stages_serverPop {m : Nat} {rest : List Nat} (h : s.server = .popMsg) :
    stages { s with serverQueue := rest, server := .route m } = Flow.hop (stages s) .serverQueue .serverHand m rest := by
  funext x
  cases x <;> simp [stages, Flow.hop, ServerPc.held, h]

theorem stages_route {m : Nat} {j : Fin n.val} :
    stages { s with
      workerQueue := Function.update s.workerQueue j (s.workerQueue j ++ [m]), server := .notify j } =
      Flow.hop (stages s) .serverHand (.workerQueue j) m [] := by
  funext x
  cases x <;> simp only [stages, Flow.hop, Function.update_apply, reduceCtorEq, if_false, if_true, ServerPc.held,
    Stage.workerQueue.injEq]

theorem stages_workerPop {j : Fin n.val} {m : Nat} {rest : List Nat} :
    stages (setWorker { s with
      workerQueue := Function.update s.workerQueue j rest
      processed := Function.update s.processed j (s.processed j ++ [m]) } j (.process m)) =
      Flow.hop (stages s) (.workerQueue j) (.processed j) m rest := by
  funext x
  cases x <;> simp only [stages, Flow.hop, setWorker, Function.update_apply, reduceCtorEq, if_false,
    Stage.workerQueue.injEq, Stage.processed.injEq]

theorem places_pushRequest {i : Fin ns} (r : PushReq) (h : s.sig i = .idle) :
    places (pushRequest s i r) = Flow.put (places s) (.sigHand i) s.sent.length := by
  funext x
  cases x <;> simp only [places, Flow.put, pushRequest, setSig, Function.update_apply, reduceCtorEq, if_false,
    Place.sigHand.injEq]
  · split <;> simp_all [SigPc.outgoing]
  · split <;> simp_all [SigPc.incoming]

/-- A signaling worker that holds no message before and after. -/
theorem places_setSig {i : Fin ns} {pc : SigPc} (h1 : pc.outgoing = (s.sig i).outgoing)
    (h2 : pc.incoming = (s.sig i).incoming) : places (setSig s i pc) = places s := by
  funext x
  cases x <;> simp only [places, setSig, Function.update_apply]
  · split <;> simp_all
  · split <;> simp_all

theorem places_setWorker {j : Fin n.val} {pc : WorkerPc ns} (h : pc.held = (s.worker j).held) :
    places (setWorker s j pc) = places s := by
  funext x
  cases x <;> simp only [places, setWorker, Function.update_apply]
  split <;> simp_all

/-- The answer a worker fills in changes no path. -/
theorem path_fillOffer (msgs : Nat → RtcMsg (Fin ns)) (m : Nat) :
    path n (Function.update msgs m (fillOffer (msgs m))) = path n msgs ∧
      stagePath n (Function.update msgs m (fillOffer (msgs m))) = stagePath n msgs := by
  constructor
  · funext m'
    unfold path
    by_cases hm : m' = m
    · subst hm
      rw [Function.update_self]
      rfl
    · rw [Function.update_of_ne hm]
  · funext m'
    unfold stagePath
    by_cases hm : m' = m
    · subst hm
      rw [Function.update_self]
      rfl
    · rw [Function.update_of_ne hm]

end Effects

/-! ## The law is kept -/

section Kept
variable {s s' : St ns n}

/-- A step that moves no message. -/
theorem MsgInv.stutter (h : MsgInv s) (hmsgs : s'.msgs = s.msgs) (hsent : s'.sent = s.sent)
    (hpushed : s'.pushed = s.pushed) (hplaces : places s' = places s) (hstages : stages s' = stages s)
    (hpopped : s'.popped = s.popped) : MsgInv s' := by
  have hans : ∀ i, s'.answered i = s.answered i := fun i => congrFun hplaces (.answered i)
  have hinc : ∀ i, (s'.sig i).incoming = (s.sig i).incoming := fun i => congrFun hplaces (.replyHand i)
  refine ⟨?_, ?_, ?_, ?_, ?_, ?_⟩
  · rw [hmsgs, hplaces, hsent]
    exact h.flows
  · rw [hmsgs, hstages, hpushed]
    exact h.staged
  · rw [hsent]
    exact h.numbered
  · rw [hpushed, hsent]
    exact h.pushed
  · rw [hmsgs, hsent]
    exact h.made
  · intro i
    rw [hpopped, hans, hinc]
    exact h.popped i

theorem MsgInv.popped_update (h : MsgInv s) {i : Fin ns} {pc : SigPc} (hpc : pc.incoming = (s.sig i).incoming)
    (k : Fin ns) : s.popped k = s.answered k ++ (Function.update s.sig i pc k).incoming := by
  rw [h.popped k, Flow.apply_update_eq hpc]

theorem inv_pushRequest (h : MsgInv s) {i : Fin ns} (r : PushReq) (hi : s.sig i = .idle) :
    MsgInv (pushRequest s i r) := by
  have hold : ∀ m ∈ s.sent, Function.update s.msgs s.sent.length (processPush i r) m = s.msgs m := by
    intro m hm
    rw [h.numbered] at hm
    exact Function.update_of_ne (Nat.ne_of_lt (List.mem_range.1 hm)) _ _
  obtain ⟨j, hj, -⟩ := route_eq n r.streamName
  have hnew : path n (Function.update s.msgs s.sent.length (processPush i r)) s.sent.length = hops i j := by
    unfold path
    rw [Function.update_self]
    simp only [processPush, hj]
  refine ⟨?_, ?_, ?_, ?_, ?_, ?_⟩
  · rw [places_pushRequest r hi]
    have hcongr : Flows (path n (pushRequest s i r).msgs) (places s) s.sent := by
      refine h.flows.congr (fun m hm => ?_)
      unfold path
      rw [show (pushRequest s i r).msgs m = s.msgs m from hold m hm]
    have hsplit : path n (pushRequest s i r).msgs s.sent.length =
        [Place.answered i, .replyHand i, .sigQueue i, .workerHand j, .workerQueue j, .serverHand, .serverQueue] ++
          [Place.sigHand i] := hnew
    exact hcongr.put hsplit (hnew ▸ nodup_hops i j)
  · refine h.staged.congr (fun m hm => ?_)
    unfold stagePath
    rw [show (pushRequest s i r).msgs m = s.msgs m from hold m (h.pushed m hm)]
  · have hlen : (s.sent ++ [s.sent.length]).length = s.sent.length + 1 := by simp
    show s.sent ++ [s.sent.length] = List.range (s.sent ++ [s.sent.length]).length
    rw [hlen, List.range_succ, ← h.numbered]
  · intro m hm
    exact List.mem_append_left _ (h.pushed m hm)
  · intro m hm
    rcases List.mem_append.1 hm with hm | hm
    · show (Function.update s.msgs s.sent.length (processPush i r) m).cmdno = cmdnoPush ∧ _
      rw [pushRequest, setSig]
      simp only [hold m hm]
      exact h.made m hm
    · rw [List.mem_singleton.1 hm, pushRequest, setSig]
      simp only [Function.update_self]
      exact ⟨rfl, i, rfl⟩
  · exact h.popped_update (by rw [hi]; rfl)

theorem inv_send (h : MsgInv s) {i : Fin ns} {m : Nat} (hi : s.sig i = .send m) :
    MsgInv (setSig { s with serverQueue := s.serverQueue ++ [m], pushed := s.pushed ++ [m] } i .notifyServer) := by
  have hat : places s (.sigHand i) = [m] := by simp [places, hi, SigPc.outgoing]
  obtain ⟨i', j, -, -, -, hpath, hmem, hstage⟩ := h.path_eq (hat ▸ List.mem_singleton.2 rfl)
  have hii : i' = i := by simpa [hops, eq_comm] using hmem
  subst hii
  have hsplit : path n s.msgs m =
      [Place.answered i', .replyHand i', .sigQueue i', .workerHand j, .workerQueue j, .serverHand] ++
        Place.serverQueue :: .sigHand i' :: [] := hpath
  have hstages : stages (setSig { s with serverQueue := s.serverQueue ++ [m], pushed := s.pushed ++ [m] } i'
      .notifyServer) = Flow.put (stages s) .serverQueue m := by
    funext x
    cases x <;> simp [stages, Flow.put, setSig]
  have hentry : stagePath n s.msgs m = [Stage.processed j, .workerQueue j, .serverHand] ++ [Stage.serverQueue] := hstage
  refine ⟨?_, ?_, h.numbered, ?_, h.made, ?_⟩
  · rw [places_send hi]
    exact h.flows.hop hsplit (hpath ▸ nodup_hops i' j) hat
  · rw [hstages]
    exact h.staged.put hentry (hstage ▸ nodup_stageHops j)
  · intro m' hm'
    rcases List.mem_append.1 hm' with hm' | hm'
    · exact h.pushed m' hm'
    · rw [List.mem_singleton.1 hm']
      exact h.flows.mem_entered (hat ▸ List.mem_singleton.2 rfl)
  · exact h.popped_update (by rw [hi]; rfl)

theorem inv_popMsg (h : MsgInv s) {i : Fin ns} {m : Nat} {rest : List Nat} (hi : s.sig i = .popMsg)
    (hq : s.sigQueue i = m :: rest) :
    MsgInv (setSig { s with
      sigQueue := Function.update s.sigQueue i rest
      popped := Function.update s.popped i (s.popped i ++ [m]) } i (.answer m)) := by
  have hat : places s (.sigQueue i) = m :: rest := hq
  obtain ⟨i', j, -, -, -, hpath, hmem, -⟩ := h.path_eq (hat ▸ List.mem_cons_self)
  have hii : i' = i := by simpa [hops, eq_comm] using hmem
  subst hii
  have hsplit : path n s.msgs m = [Place.answered i'] ++ Place.replyHand i' :: .sigQueue i' ::
      [.workerHand j, .workerQueue j, .serverHand, .serverQueue, .sigHand i'] := hpath
  refine ⟨?_, h.staged, h.numbered, h.pushed, h.made, ?_⟩
  · rw [places_popMsg hi]
    exact h.flows.hop hsplit (hpath ▸ nodup_hops i' j) hat
  · intro k
    simp only [setSig, Function.update_apply]
    split
    · rename_i he
      have hnone : (s.sig i').incoming = [] := by rw [hi]; rfl
      rw [he, h.popped i', hnone, List.append_nil]
      rfl
    · exact h.popped k

theorem inv_answer (h : MsgInv s) {i : Fin ns} {m : Nat} (hi : s.sig i = .answer m) :
    (s.msgs m).cmdno = cmdnoPush ∧
      MsgInv (setSig { s with answered := Function.update s.answered i (s.answered i ++ [m]) } i .idle) := by
  have hat : places s (.replyHand i) = [m] := by simp [places, hi, SigPc.incoming]
  obtain ⟨i', j, hcmd, -, -, hpath, hmem, -⟩ := h.path_eq (hat ▸ List.mem_singleton.2 rfl)
  have hii : i' = i := by simpa [hops, eq_comm] using hmem
  subst hii
  have hsplit : path n s.msgs m = [] ++ Place.answered i' :: .replyHand i' ::
      [.sigQueue i', .workerHand j, .workerQueue j, .serverHand, .serverQueue, .sigHand i'] := hpath
  refine ⟨hcmd, ?_, h.staged, h.numbered, h.pushed, h.made, ?_⟩
  · rw [places_answer hi]
    exact h.flows.hop hsplit (hpath ▸ nodup_hops i' j) hat
  · intro k
    simp only [setSig, Function.update_apply]
    split
    · rename_i he
      rw [he, h.popped i', hi]
      simp [SigPc.incoming]
    · exact h.popped k

theorem inv_serverPop (h : MsgInv s) {m : Nat} {rest : List Nat} (hs : s.server = .popMsg)
    (hq : s.serverQueue = m :: rest) : MsgInv { s with serverQueue := rest, server := .route m } := by
  have hat : places s .serverQueue = m :: rest := hq
  obtain ⟨i, j, -, -, -, hpath, -, hstage⟩ := h.path_eq (hat ▸ List.mem_cons_self)
  have hsplit : path n s.msgs m =
      [Place.answered i, .replyHand i, .sigQueue i, .workerHand j, .workerQueue j] ++
        Place.serverHand :: .serverQueue :: [.sigHand i] := hpath
  have hstep : stagePath n s.msgs m = [Stage.processed j, .workerQueue j] ++ Stage.serverHand :: .serverQueue :: [] := hstage
  refine ⟨?_, ?_, h.numbered, h.pushed, h.made, h.popped⟩
  · rw [places_serverPop hs]
    exact h.flows.hop hsplit (hpath ▸ nodup_hops i j) hat
  · rw [stages_serverPop hs]
    exact h.staged.hop hstep (hstage ▸ nodup_stageHops j) hq

theorem inv_route (h : MsgInv s) {m : Nat} (hs : s.server = .route m) :
    ∃ j, route n (s.msgs m).streamName = some j ∧
      MsgInv { s with
        workerQueue := Function.update s.workerQueue j (s.workerQueue j ++ [m]), server := .notify j } := by
  have hat : places s .serverHand = [m] := by simp [places, hs, ServerPc.held]
  obtain ⟨i, j, -, -, hroute, hpath, -, hstage⟩ := h.path_eq (hat ▸ List.mem_singleton.2 rfl)
  have hsplit : path n s.msgs m = [Place.answered i, .replyHand i, .sigQueue i, .workerHand j] ++
      Place.workerQueue j :: .serverHand :: [.serverQueue, .sigHand i] := hpath
  have hstep : stagePath n s.msgs m = [Stage.processed j] ++ Stage.workerQueue j :: .serverHand :: [.serverQueue] := hstage
  refine ⟨j, hroute, ?_, ?_, h.numbered, h.pushed, h.made, h.popped⟩
  · rw [places_route]
    exact h.flows.hop hsplit (hpath ▸ nodup_hops i j) hat
  · rw [stages_route]
    exact h.staged.hop hstep (hstage ▸ nodup_stageHops j) hat

theorem inv_workerPop (h : MsgInv s) {j : Fin n.val} {m : Nat} {rest : List Nat} (hs : s.worker j = .popMsg)
    (hq : s.workerQueue j = m :: rest) :
    MsgInv (setWorker { s with
      workerQueue := Function.update s.workerQueue j rest
      processed := Function.update s.processed j (s.processed j ++ [m]) } j (.process m)) := by
  have hat : places s (.workerQueue j) = m :: rest := hq
  obtain ⟨i, j', -, -, -, hpath, hmem, hstage⟩ := h.path_eq (hat ▸ List.mem_cons_self)
  have hjj : j' = j := by simpa [hops, eq_comm] using hmem
  subst hjj
  have hsplit : path n s.msgs m = [Place.answered i, .replyHand i, .sigQueue i] ++
      Place.workerHand j' :: .workerQueue j' :: [.serverHand, .serverQueue, .sigHand i] := hpath
  have hstep : stagePath n s.msgs m = [] ++ Stage.processed j' :: .workerQueue j' :: [.serverHand, .serverQueue] := hstage
  refine ⟨?_, ?_, h.numbered, h.pushed, h.made, h.popped⟩
  · rw [places_workerPop hs]
    exact h.flows.hop hsplit (hpath ▸ nodup_hops i j') hat
  · rw [stages_workerPop]
    exact h.staged.hop hstep (hstage ▸ nodup_stageHops j') hq

theorem inv_process (h : MsgInv s) {j : Fin n.val} {m : Nat} (hs : s.worker j = .process m) :
    ∃ i, (s.msgs m).cmdno = cmdnoPush ∧ (s.msgs m).worker = some i ∧
      MsgInv (setWorker { s with
        msgs := Function.update s.msgs m (fillOffer (s.msgs m))
        sigQueue := Function.update s.sigQueue i (s.sigQueue i ++ [m]) } j (.notify i)) := by
  have hat : places s (.workerHand j) = [m] := by simp [places, hs, WorkerPc.held]
  obtain ⟨i, j', hcmd, hwork, -, hpath, hmem, -⟩ := h.path_eq (hat ▸ List.mem_singleton.2 rfl)
  have hjj : j' = j := by simpa [hops, eq_comm] using hmem
  subst hjj
  have hsplit : path n s.msgs m = [Place.answered i, .replyHand i] ++
      Place.sigQueue i :: .workerHand j' :: [.workerQueue j', .serverHand, .serverQueue, .sigHand i] := hpath
  refine ⟨i, hcmd, hwork, ?_, ?_, h.numbered, h.pushed, ?_, h.popped⟩
  · rw [places_process]
    show Flows (path n (Function.update s.msgs m (fillOffer (s.msgs m)))) _ _
    rw [(path_fillOffer s.msgs m).1]
    exact h.flows.hop hsplit (hpath ▸ nodup_hops i j') hat
  · show Flows (stagePath n (Function.update s.msgs m (fillOffer (s.msgs m)))) (stages s) s.pushed
    rw [(path_fillOffer s.msgs m).2]
    exact h.staged
  · intro m' hm'
    show (Function.update s.msgs m (fillOffer (s.msgs m)) m').cmdno = cmdnoPush ∧
      ∃ i, (Function.update s.msgs m (fillOffer (s.msgs m)) m').worker = some i
    by_cases he : m' = m
    · rw [he, Function.update_self]
      exact ⟨hcmd, i, hwork⟩
    · rw [Function.update_of_ne he]
      exact h.made m' hm'

/-- A signaling worker's step that changes nothing but pipes, descriptors and a program counter without a message. -/
theorem MsgInv.sig_stutter (h : MsgInv s) {i : Fin ns} {pc : SigPc} (h1 : pc.outgoing = (s.sig i).outgoing)
    (h2 : pc.incoming = (s.sig i).incoming) : MsgInv (setSig s i pc) :=
  h.stutter rfl rfl rfl (places_setSig h1 h2) rfl rfl

theorem MsgInv.worker_stutter (h : MsgInv s) {j : Fin n.val} {pc : WorkerPc ns} (h1 : pc.held = (s.worker j).held) :
    MsgInv (setWorker s j pc) :=
  h.stutter rfl rfl rfl (places_setWorker h1) rfl rfl

/-- Pipes and descriptors carry no message. -/
theorem MsgInv.outside (h : MsgInv s) (serverPipe : Nat) (workerPipe : Fin n.val → Nat)
    (connQueue : Fin ns → List Accepted) (sigPipe : Fin ns → List Note) (nextWorker : Nat) (accept : AcceptPc ns)
    (accepted : List Accepted) (newConns : Fin ns → List Accepted) :
    MsgInv { s with serverPipe := serverPipe, workerPipe := workerPipe, connQueue := connQueue, sigPipe := sigPipe,
                    nextWorker := nextWorker, accept := accept, accepted := accepted, newConns := newConns } := by
  refine h.stutter rfl rfl rfl ?_ ?_ rfl
  · funext x
    cases x <;> rfl
  · funext x
    cases x <;> rfl

theorem MsgInv.server_stutter (h : MsgInv s) {pc : ServerPc n} (hpc : pc.held = s.server.held) (serverPipe : Nat)
    (workerPipe : Fin n.val → Nat) :
    MsgInv { s with server := pc, serverPipe := serverPipe, workerPipe := workerPipe } := by
  refine h.stutter rfl rfl rfl ?_ ?_ rfl
  · funext x
    cases x <;> simp [places, hpc]
  · funext x
    cases x <;> simp [stages, hpc]

theorem inv_sigMove (h : MsgInv s) {i : Fin ns} (hm : SigMove s i s') : MsgInv s' := by
  cases hm with
  | readConn hpc hp => exact MsgInv.sig_stutter (h.outside _ _ _ _ _ _ _ _) (by rw [hpc]; rfl) (by rw [hpc]; rfl)
  | readMsg hpc hp => exact MsgInv.sig_stutter (h.outside _ _ _ _ _ _ _ _) (by rw [hpc]; rfl) (by rw [hpc]; rfl)
  | send hpc => exact inv_send h hpc
  | notifyServer hpc => exact MsgInv.sig_stutter (h.outside _ _ _ _ _ _ _ _) (by rw [hpc]; rfl) (by rw [hpc]; rfl)
  | popNone hpc hq => exact h.sig_stutter (by rw [hpc]; rfl) (by rw [hpc]; rfl)
  | pop hpc hq => exact inv_popMsg h hpc hq
  | answer hpc hcmd => exact (inv_answer h hpc).2
  | unknown hpc hcmd => exact absurd (inv_answer h hpc).1 hcmd
  | takeNone hpc hq => exact h.sig_stutter (by rw [hpc]; rfl) (by rw [hpc]; rfl)
  | take hpc hq => exact MsgInv.sig_stutter (h.outside _ _ _ _ _ _ _ _) (by rw [hpc]; rfl) (by rw [hpc]; rfl)
  | newConn hpc => exact MsgInv.sig_stutter (h.outside _ _ _ _ _ _ _ _) (by rw [hpc]; rfl) (by rw [hpc]; rfl)

theorem inv_serverMove (h : MsgInv s) (hm : ServerMove s s') : MsgInv s' := by
  cases hm with
  | read hpc hp => exact h.server_stutter (by rw [hpc]; rfl) _ _
  | popNone hpc hq => exact h.server_stutter (by rw [hpc]; rfl) _ _
  | pop hpc hq => exact inv_serverPop h hpc hq
  | noWorker hpc hr =>
    obtain ⟨j, hj, -⟩ := inv_route h hpc
    rw [hj] at hr
    cases hr
  | route hpc hr =>
    obtain ⟨j, hj, hinv⟩ := inv_route h hpc
    rw [hj] at hr
    cases hr
    exact hinv
  | notify hpc => exact h.server_stutter (by rw [hpc]; rfl) _ _

theorem inv_workerMove (h : MsgInv s) {j : Fin n.val} (hm : WorkerMove s j s') : MsgInv s' := by
  cases hm with
  | read hpc hp => exact MsgInv.worker_stutter (h.outside _ _ _ _ _ _ _ _) (by rw [hpc]; rfl)
  | popNone hpc hq => exact h.worker_stutter (by rw [hpc]; rfl)
  | pop hpc hq => exact inv_workerPop h hpc hq
  | process hpc hcmd hi =>
    obtain ⟨i, -, hi', hinv⟩ := inv_process h hpc
    rw [hi'] at hi
    cases hi
    exact hinv
  | noSender hpc hcmd hi =>
    obtain ⟨i, -, hi', -⟩ := inv_process h hpc
    rw [hi'] at hi
    cases hi
  | unknown hpc hcmd =>
    obtain ⟨i, hpush, -, -⟩ := inv_process h hpc
    exact absurd hpush hcmd
  | notify hpc => exact MsgInv.worker_stutter (h.outside _ _ _ _ _ _ _ _) (by rw [hpc]; rfl)

/-- **Every step of every thread keeps the law of the messages.** -/
theorem msgInv_step {l : Label ns n} (h : MsgInv s) (hs : step s l = some s') : MsgInv s' := by
  cases step_move hs with
  | pushRequest r hi => exact inv_pushRequest h r hi
  | sig hm => exact inv_sigMove h hm
  | server hm => exact inv_serverMove h hm
  | worker hm => exact inv_workerMove h hm
  | acceptFailed hi => exact h
  | accept hi => exact h.outside _ _ _ _ _ _ _ _
  | dispatch hm => cases hm <;> exact h.outside _ _ _ _ _ _ _ _

end Kept

theorem msgInv_init : MsgInv (init : St ns n) := by
  have hplaces : places (init : St ns n) = fun _ => [] := by
    funext x
    cases x <;> rfl
  have hstages : stages (init : St ns n) = fun _ => [] := by
    funext x
    cases x <;> rfl
  refine ⟨?_, ?_, rfl, fun m hm => ?_, fun m hm => ?_, fun i => rfl⟩
  · rw [hplaces]
    exact Flow.flows_empty _
  · rw [hstages]
    exact Flow.flows_empty _
  · cases hm
  · cases hm

/-- **In every reachable state the messages are under the law.** -/
theorem reachable_msgInv {s : St ns n} (h : Lts.Reachable step init s) : MsgInv s :=
  h.invariant msgInv_init (fun _ _ _ hi hs => msgInv_step hi hs)

end Pipeline
end Xrtc
