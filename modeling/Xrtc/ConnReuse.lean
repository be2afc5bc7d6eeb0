import Xrtc.Delivery
import Xrtc.Offer
/-!
# ConnReuse — which connection a reply is appended to

The pipeline joined with the signaling workers' connections: the tables `conns_`, the live `TcpConnection` objects, the
open descriptors, and the calls of `new_conn`, `close_conn_` (after a failed read or a timeout), `process_push_` and
`_response_server_offer` that work on them.  The allocator may return any address that is not live, the kernel any
descriptor that is not open.  Every `TcpConnection` carries the number of its allocation; `origin m` is the number of the
one message `m` was created on, `appended` lists the replies appended and the numbers of the ones they were appended to.
Reads that bring no push change nothing here.
-/
namespace Xrtc
namespace ConnReuse

open Pipeline (PushReq Accepted MsgInv)

variable {ns : Nat} {n : WorkerNum}

/-- A live `TcpConnection` and the worker whose thread made it. -/
structure Instance (ns : Nat) where
  serial : Nat
  fd : Int
  owner : Fin ns
  deriving DecidableEq

/-- `crashed`: the process has written outside a vector or followed a dangling pointer. -/
structure St (ns : Nat) (n : WorkerNum) where
  pipe : Pipeline.St ns n
  conns : Fin ns → List (Option Addr)
  heap : Addr → Option (Instance ns)
  serial : Nat
  opened : Int → Bool
  crashed : Bool
  origin : Nat → Nat
  appended : List (Nat × Nat)

/-- A step of the pipeline comes with the address `new TcpConnection` returns, if it is a `new_conn`, and with whether
`zmalloc` succeeds, if it is a `_response_server_offer`. -/
inductive Label (ns : Nat) (n : WorkerNum) where
  | pipe (l : Pipeline.Label ns n) (a : Addr) (zmalloced : Bool)
  | push (i : Fin ns) (fd : Int) (r : PushReq)
  | close (i : Fin ns) (a : Addr)
  deriving DecidableEq

def init : St ns n := ⟨Pipeline.init, fun _ => [], fun _ => none, 0, fun _ => false, false, fun _ => 0, []⟩

/-- `conns_[fd]` behind the guards of `read_query`. -/
def slot (conns : List (Option Addr)) (fd : Int) : Option Addr :=
  if fd < 0 ∨ (conns.length : Int) ≤ fd then none else conns.getD fd.toNat none

/-- The end of `new_conn`: `conns_.resize(fd * 2, nullptr)` if need be, then `conns_[fd] = conn`.  `none` when `fd * 2`
overflows and when the vector is still too short, which `fd = 0` makes it. -/
def setConn (conns : List (Option Addr)) (fd : Nat) (a : Addr) : Option (List (Option Addr)) :=
  if conns.length ≤ fd then
    if 2 ^ 30 ≤ fd ∨ fd * 2 ≤ fd then none
    else some ((conns ++ List.replicate (fd * 2 - conns.length) none).set fd (some a))
  else some (conns.set fd (some a))

def newConn (s : St ns n) (i : Fin ns) (fd : Int) (a : Addr) : St ns n :=
  if fd < 0 then s
  else match setConn (s.conns i) fd.toNat a with
    | none => { s with crashed := true }
    | some table => { s with
        conns := Function.update s.conns i table
        heap := Function.update s.heap a (some ⟨s.serial, fd, i⟩)
        serial := s.serial + 1 }

/-- `close_conn_`. -/
def closeConn (s : St ns n) (i : Fin ns) (a : Addr) (c : Instance ns) : St ns n :=
  { s with
    opened := Function.update s.opened c.fd false
    conns := Function.update s.conns i ((s.conns i).set c.fd.toNat none)
    heap := Function.update s.heap a none }

/-- `_response_server_offer`, up to which connection the reply goes to. -/
def responseServerOffer (s : St ns n) (i : Fin ns) (m : Nat) (zmalloced : Bool) : St ns n :=
  match Offer.replyTarget (s.conns i) (s.pipe.msgs m) with
  | none => s
  | some a => match s.heap a with
    | none => { s with crashed := true }
    | some c => if zmalloced = true then { s with appended := s.appended ++ [(m, c.serial)] } else s

/-- What a step of the pipeline does to the connections, `s` already holding the pipeline's next state. -/
def effect (before : Pipeline.St ns n) (s : St ns n) (a : Addr) (zmalloced : Bool) :
    Pipeline.Label ns n → Option (St ns n)
  | .pushRequest _ _ => none
  | .accept (some fd) =>
    if 0 ≤ fd ∧ s.opened fd = false then some { s with opened := Function.update s.opened fd true } else none
  | .sig i => match before.sig i with
    | .newConn d => if (s.heap a).isNone then some (newConn s i d.fd a) else none
    | .answer m => if (before.msgs m).cmdno = cmdnoPush then some (responseServerOffer s i m zmalloced) else some s
    | _ => some s
  | _ => some s

/-- `process_push_` on the connection in slot `fd` of worker `i`. -/
def push (s : St ns n) (i : Fin ns) (fd : Int) (r : PushReq) : Option (St ns n) :=
  match slot (s.conns i) fd with
  | none => none
  | some a => match s.heap a with
    | none => some { s with crashed := true }
    | some c => (Pipeline.step s.pipe (.pushRequest i { r with conn := a, fd := c.fd })).map (fun p =>
        { s with pipe := p, origin := Function.update s.origin s.pipe.sent.length c.serial })

def step (s : St ns n) (l : Label ns n) : Option (St ns n) :=
  if s.crashed = true then none
  else match l with
    | .pipe l a zmalloced => (Pipeline.step s.pipe l).bind (fun p => effect s.pipe { s with pipe := p } a zmalloced l)
    | .push i fd r => push s i fd r
    | .close i a => match s.heap a with
      | none => none
      | some c => if c.owner = i ∧ s.pipe.sig i = .idle then some (closeConn s i a c) else none

/-- If worker `i` is about to call `new_conn`, none of its messages still under way is from a connection with that
descriptor at the address `a`. -/
def NewPlace (p : Pipeline.St ns n) (i : Fin ns) (a : Addr) : Pipeline.SigPc → Prop
  | .newConn d => ∀ m ∈ p.sent, (∀ k, m ∉ p.answered k) → (p.msgs m).worker = some i → (p.msgs m).conn = some a →
      (p.msgs m).fd ≠ d.fd
  | _ => True

/-- No `new_conn` puts a connection where one was whose message is still under way. -/
def NoReuse (s : St ns n) : Label ns n → Prop
  | .pipe (.sig i) a _ => NewPlace s.pipe i a (s.pipe.sig i)
  | _ => True

instance (p : Pipeline.St ns n) (i : Fin ns) (a : Addr) : (pc : Pipeline.SigPc) → Decidable (NewPlace p i a pc)
  | .newConn d => inferInstanceAs (Decidable (∀ m ∈ p.sent, (∀ k, m ∉ p.answered k) → (p.msgs m).worker = some i →
      (p.msgs m).conn = some a → (p.msgs m).fd ≠ d.fd))
  | .idle | .send _ | .notifyServer | .popMsg | .answer _ | .takeConn => inferInstanceAs (Decidable True)

instance (s : St ns n) : (l : Label ns n) → Decidable (NoReuse s l)
  | .pipe (.sig i) a _ => inferInstanceAs (Decidable (NewPlace s.pipe i a (s.pipe.sig i)))
  | .pipe (.pushRequest _ _) _ _ | .pipe .server _ _ | .pipe (.worker _) _ _ | .pipe (.accept _) _ _
  | .pipe .dispatch _ _ | .push _ _ _ | .close _ _ => inferInstanceAs (Decidable True)

/-! ## Tables -/

theorem slot_eq_some {conns : List (Option Addr)} {fd : Int} {a : Addr} :
    slot conns fd = some a ↔ 0 ≤ fd ∧ conns[fd.toNat]? = some (some a) := by
  unfold slot
  rw [List.getD_eq_getElem?_getD]
  by_cases hfd : fd < 0 ∨ (conns.length : Int) ≤ fd
  · rw [if_pos hfd]
    constructor
    · intro h
      cases h
    · rintro ⟨h0, h1⟩
      obtain ⟨hlt, -⟩ := List.getElem?_eq_some_iff.1 h1
      omega
  · rw [if_neg hfd]
    have hlt : fd.toNat < conns.length := by omega
    rw [List.getElem?_eq_getElem hlt, Option.getD_some]
    constructor
    · intro h
      exact ⟨by omega, by rw [h]⟩
    · rintro ⟨-, h⟩
      exact Option.some.inj h

theorem replyTarget_eq_some {W : Type} {conns : List (Option Addr)} {msg : RtcMsg W} {a : Addr}
    (h : Offer.replyTarget conns msg = some a) : msg.conn = some a ∧ slot conns msg.fd = some a := by
  unfold Offer.replyTarget at h
  unfold slot
  cases hc : msg.conn with
  | none =>
    rw [hc] at h
    cases h
  | some c =>
    simp only [hc] at h
    split at h
    · cases h
    · rename_i hfd
      rw [if_neg hfd]
      split at h
      · cases h
      · rename_i hslot
        cases h
        exact ⟨rfl, not_not.1 hslot⟩

/-- What a table shows after `new_conn`: the new connection in its slot, the old ones in the others. -/
theorem setConn_get {conns table : List (Option Addr)} {fd : Nat} {a : Addr} (h : setConn conns fd a = some table)
    {k : Nat} {b : Addr} (hk : table[k]? = some (some b)) : (k = fd ∧ b = a) ∨ (k ≠ fd ∧ conns[k]? = some (some b)) := by
  have hset : ∀ l : List (Option Addr), (l.set fd (some a))[k]? = some (some b) →
      (k = fd ∧ b = a) ∨ (k ≠ fd ∧ l[k]? = some (some b)) := by
    intro l hl
    by_cases he : k = fd
    · subst he
      rw [List.getElem?_set_self' ] at hl
      cases hlk : l[k]? with
      | none =>
        rw [hlk] at hl
        cases hl
      | some x =>
        rw [hlk] at hl
        cases hl
        exact .inl ⟨rfl, rfl⟩
    · rw [List.getElem?_set_ne (Ne.symm he)] at hl
      exact .inr ⟨he, hl⟩
  unfold setConn at h
  split at h
  · split at h
    · cases h
    · cases h
      rcases hset _ hk with hk | ⟨hne, hk⟩
      · exact .inl hk
      · refine .inr ⟨hne, ?_⟩
        rcases Nat.lt_or_ge k conns.length with hlt | hge
        · rwa [List.getElem?_append_left hlt] at hk
        · rw [List.getElem?_append_right hge, List.getElem?_replicate] at hk
          split at hk <;> cases hk
  · cases h
    exact hset _ hk

/-! ## What the pipeline leaves alone -/

/-- No step but a push request makes a message or changes one's sender, connection or descriptor, and none takes an
answer back. -/
structure Frame (p p' : Pipeline.St ns n) : Prop where
  sent : p'.sent = p.sent
  worker : ∀ m, (p'.msgs m).worker = (p.msgs m).worker
  conn : ∀ m, (p'.msgs m).conn = (p.msgs m).conn
  fd : ∀ m, (p'.msgs m).fd = (p.msgs m).fd
  answered : ∀ k m, m ∈ p.answered k → m ∈ p'.answered k

section Frames
variable {p p' : Pipeline.St ns n}

theorem Frame.of_eq (hsent : p'.sent = p.sent) (hmsgs : p'.msgs = p.msgs)
    (hans : ∀ k m, m ∈ p.answered k → m ∈ p'.answered k) : Frame p p' :=
  ⟨hsent, fun _ => by rw [hmsgs], fun _ => by rw [hmsgs], fun _ => by rw [hmsgs], hans⟩

theorem frame_sigMove {i : Fin ns} (hm : Pipeline.SigMove p i p') : Frame p p' := by
  cases hm with
  | answer hpc hcmd =>
    refine .of_eq rfl rfl (fun k m' h => ?_)
    simp only [Pipeline.setSig, Function.update_apply]
    split
    · rename_i he
      exact List.mem_append_left _ (he ▸ h)
    · exact h
  | _ => exact .of_eq rfl rfl (fun _ _ h => h)

/-- The offer changes none of the fields a reply is routed by. -/
theorem Frame.of_fillOffer {m : Nat} (hsent : p'.sent = p.sent)
    (hmsgs : p'.msgs = Function.update p.msgs m (Pipeline.fillOffer (p.msgs m))) (hans : p'.answered = p.answered) :
    Frame p p' := by
  have hfill : ∀ (W : Type) (f : RtcMsg (Fin ns) → W), (∀ x, f (Pipeline.fillOffer x) = f x) → ∀ m',
      f (p'.msgs m') = f (p.msgs m') := by
    intro W f hf m'
    rw [hmsgs]
    exact Flow.apply_update_eq (hf (p.msgs m)) m'
  exact ⟨hsent, hfill _ (fun x => x.worker) (fun _ => rfl), hfill _ (fun x => x.conn) (fun _ => rfl),
    hfill _ (fun x => x.fd) (fun _ => rfl), fun k m' h => by rw [hans]; exact h⟩

theorem frame_workerMove {j : Fin n.val} (hm : Pipeline.WorkerMove p j p') : Frame p p' := by
  cases hm with
  | process hpc hcmd hi => exact .of_fillOffer rfl rfl rfl
  | noSender hpc hcmd hi => exact .of_fillOffer rfl rfl rfl
  | _ => exact .of_eq rfl rfl (fun _ _ h => h)

theorem frame_step {l : Pipeline.Label ns n} (hl : ∀ i r, l ≠ .pushRequest i r) (hs : Pipeline.step p l = some p') :
    Frame p p' := by
  cases Pipeline.step_move hs with
  | pushRequest r hi => exact absurd rfl (hl _ r)
  | sig hm => exact frame_sigMove hm
  | server hm => cases hm <;> exact .of_eq rfl rfl (fun _ _ h => h)
  | worker hm => exact frame_workerMove hm
  | acceptFailed hi => exact .of_eq rfl rfl (fun _ _ h => h)
  | accept hi => exact .of_eq rfl rfl (fun _ _ h => h)
  | dispatch hm => cases hm <;> exact .of_eq rfl rfl (fun _ _ h => h)

end Frames

/-! ## The invariant -/

/-- Table entries are live connections of their slot and worker; and while a message is under way, the connection in its
slot, if it is at the message's address, is the one it was created on. -/
structure Inv (s : St ns n) : Prop where
  msgs : MsgInv s.pipe
  table : ∀ i fd a, slot (s.conns i) fd = some a → ∃ c, s.heap a = some c ∧ c.fd = fd ∧ c.owner = i
  same : ∀ m ∈ s.pipe.sent, (∀ k, m ∉ s.pipe.answered k) → ∀ i a, (s.pipe.msgs m).worker = some i →
    (s.pipe.msgs m).conn = some a → slot (s.conns i) (s.pipe.msgs m).fd = some a →
    ∃ c, s.heap a = some c ∧ c.serial = s.origin m
  appended : ∀ m k, (m, k) ∈ s.appended → m ∈ s.pipe.sent ∧ s.origin m = k

section Kept
variable {s s' : St ns n}

theorem Inv.pipe_step (h : Inv s) {p : Pipeline.St ns n} {l : Pipeline.Label ns n} (hp : Pipeline.step s.pipe l = some p)
    (hf : Frame s.pipe p) : Inv { s with pipe := p } := by
  refine ⟨Pipeline.msgInv_step h.msgs hp, h.table, ?_, ?_⟩
  · intro m hsent hans i a hw hc hslot
    simp only at hsent hans hw hc hslot
    rw [hf.sent] at hsent
    rw [hf.worker] at hw
    rw [hf.conn] at hc
    rw [hf.fd] at hslot
    exact h.same m hsent (fun k hk => hans k (hf.answered k m hk)) i a hw hc hslot
  · intro m k hmk
    simp only [hf.sent]
    exact h.appended m k hmk

theorem inv_closeConn (h : Inv s) {i : Fin ns} {a : Addr} {c : Instance ns} (hc : s.heap a = some c)
    (ho : c.owner = i) : Inv (closeConn s i a c) := by
  -- no slot leads to `a` any more: the one that did was `c.fd` of worker `i`
  have hslot : ∀ k fd b, slot ((closeConn s i a c).conns k) fd = some b → slot (s.conns k) fd = some b ∧ b ≠ a := by
    intro k fd b hb
    rw [slot_eq_some] at hb ⊢
    simp only [closeConn, Function.update_apply] at hb
    by_cases hk : k = i
    · rw [if_pos hk] at hb
      subst hk
      by_cases he : fd.toNat = c.fd.toNat
      · rw [he, List.getElem?_set_self'] at hb
        obtain ⟨-, hb⟩ := hb
        cases hs : (s.conns k)[c.fd.toNat]? <;> rw [hs] at hb <;> cases hb
      · rw [List.getElem?_set_ne (Ne.symm he)] at hb
        refine ⟨hb, fun hba => ?_⟩
        obtain ⟨c', hc', hfd, -⟩ := h.table k fd b (slot_eq_some.2 hb)
        rw [hba, hc] at hc'
        cases hc'
        rw [hfd] at he
        exact he rfl
    · rw [if_neg hk] at hb
      refine ⟨hb, fun hba => ?_⟩
      obtain ⟨c', hc', -, howner⟩ := h.table k fd b (slot_eq_some.2 hb)
      rw [hba, hc] at hc'
      cases hc'
      exact hk (howner.symm.trans ho)
  have hheap : ∀ b, b ≠ a → (closeConn s i a c).heap b = s.heap b := fun b hb => Function.update_of_ne hb _ _
  refine ⟨h.msgs, ?_, ?_, h.appended⟩
  · intro k fd b hb
    obtain ⟨hb, hne⟩ := hslot k fd b hb
    rw [hheap b hne]
    exact h.table k fd b hb
  · intro m hm hans k b hw hcn hb
    obtain ⟨hb, hne⟩ := hslot k _ b hb
    rw [hheap b hne]
    exact h.same m hm hans k b hw hcn hb

theorem inv_newConn (h : Inv s) {i : Fin ns} {fd : Int} {a : Addr} (ha : s.heap a = none)
    (hreuse : ∀ m ∈ s.pipe.sent, (∀ k, m ∉ s.pipe.answered k) → (s.pipe.msgs m).worker = some i →
      (s.pipe.msgs m).conn = some a → (s.pipe.msgs m).fd ≠ fd) : Inv (newConn s i fd a) := by
  unfold newConn
  by_cases hfd : fd < 0
  · rw [if_pos hfd]
    exact h
  · rw [if_neg hfd]
    cases hset : setConn (s.conns i) fd.toNat a with
    | none => exact ⟨h.msgs, h.table, h.same, h.appended⟩
    | some table =>
      -- an old slot still leads to its old connection, which is not at the free address `a`
      have hslot : ∀ k f b, slot (Function.update s.conns i table k) f = some b →
          (k = i ∧ f = fd ∧ b = a) ∨ (slot (s.conns k) f = some b ∧ b ≠ a) := by
        intro k f b hb
        have hold : slot (s.conns k) f = some b → b ≠ a := by
          intro hs hba
          obtain ⟨c, hc, -⟩ := h.table k f b hs
          rw [hba, ha] at hc
          cases hc
        rw [slot_eq_some, Function.update_apply] at hb
        by_cases hk : k = i
        · rw [if_pos hk] at hb
          subst hk
          rcases setConn_get hset hb.2 with ⟨hf, hba⟩ | ⟨-, hs⟩
          · exact .inl ⟨rfl, by omega, hba⟩
          · have hs' := slot_eq_some.2 ⟨hb.1, hs⟩
            exact .inr ⟨hs', hold hs'⟩
        · rw [if_neg hk] at hb
          have hs' := slot_eq_some.2 hb
          exact .inr ⟨hs', hold hs'⟩
      have hheap : ∀ b, b ≠ a → Function.update s.heap a (some ⟨s.serial, fd, i⟩) b = s.heap b :=
        fun b hb => Function.update_of_ne hb _ _
      dsimp only
      refine ⟨h.msgs, ?_, ?_, h.appended⟩
      · intro k f b hb
        rcases hslot k f b hb with ⟨rfl, rfl, rfl⟩ | ⟨hs, hne⟩
        · exact ⟨_, Function.update_self _ _ _, rfl, rfl⟩
        · simp only [hheap b hne]
          exact h.table k f b hs
      · intro m hm hans k b hw hcn hb
        rcases hslot k _ b hb with ⟨rfl, hf, rfl⟩ | ⟨hs, hne⟩
        · exact absurd hf (hreuse m hm hans hw hcn)
        · simp only [hheap b hne]
          exact h.same m hm hans k b hw hcn hs

/-- The reply of a message still under way goes to the connection it was created on. -/
theorem inv_responseServerOffer (h : Inv s) {i : Fin ns} {m : Nat} (hm : m ∈ s.pipe.sent)
    (hsame : ∀ a, (s.pipe.msgs m).conn = some a → slot (s.conns i) (s.pipe.msgs m).fd = some a →
      ∃ c, s.heap a = some c ∧ c.serial = s.origin m) (zmalloced : Bool) :
    Inv (responseServerOffer s i m zmalloced) := by
  unfold responseServerOffer
  cases ht : Offer.replyTarget (s.conns i) (s.pipe.msgs m) with
  | none => exact h
  | some a =>
    obtain ⟨hconn, hslot⟩ := replyTarget_eq_some ht
    obtain ⟨c, hc, hserial⟩ := hsame a hconn hslot
    simp only [hc]
    split
    · refine ⟨h.msgs, h.table, h.same, ?_⟩
      intro m' k hmk
      rcases List.mem_append.1 hmk with hmk | hmk
      · exact h.appended m' k hmk
      · rw [List.mem_singleton, Prod.mk.injEq] at hmk
        rw [hmk.1, hmk.2]
        exact ⟨hm, hserial.symm⟩
    · exact h

theorem inv_push (h : Inv s) {i : Fin ns} {fd : Int} {r : PushReq} (hs : push s i fd r = some s') : Inv s' := by
  unfold push at hs
  cases hslot : slot (s.conns i) fd with
  | none =>
    rw [hslot] at hs
    cases hs
  | some a =>
    obtain ⟨c, hc, hfd, -⟩ := h.table i fd a hslot
    simp only [hslot, hc] at hs
    obtain ⟨p, hp, rfl⟩ := Option.map_eq_some_iff.1 hs
    have hm := Pipeline.msgInv_step h.msgs hp
    simp only [Pipeline.step] at hp
    split at hp
    · cases hp
      have hne : ∀ m ∈ s.pipe.sent, m ≠ s.pipe.sent.length := by
        intro m hmem
        rw [h.msgs.numbered] at hmem
        exact Nat.ne_of_lt (List.mem_range.1 hmem)
      have hmsgs : ∀ m ∈ s.pipe.sent,
          (Pipeline.pushRequest s.pipe i { r with conn := a, fd := c.fd }).msgs m = s.pipe.msgs m :=
        fun m hmem => Function.update_of_ne (hne m hmem) _ _
      have hnew : (Pipeline.pushRequest s.pipe i { r with conn := a, fd := c.fd }).msgs s.pipe.sent.length =
          Pipeline.processPush i { r with conn := a, fd := c.fd } := Function.update_self _ _ _
      refine ⟨hm, h.table, ?_, ?_⟩
      · intro m hmem hans k b hw hcn hb
        simp only at hmem hans hw hcn hb ⊢
        rcases List.mem_append.1 hmem with hmem | hmem
        · rw [hmsgs m hmem] at hw hcn hb
          rw [Function.update_of_ne (hne m hmem)]
          exact h.same m hmem hans k b hw hcn hb
        · rw [List.mem_singleton.1 hmem, hnew] at hcn
          cases hcn
          rw [List.mem_singleton.1 hmem, Function.update_self]
          exact ⟨c, hc, rfl⟩
      · intro m k hmk
        obtain ⟨hmem, hk⟩ := h.appended m k hmk
        refine ⟨List.mem_append_left _ hmem, ?_⟩
        simp only
        rw [Function.update_of_ne (hne m hmem)]
        exact hk
    · cases hp

/-- A message in a worker's hand is not answered yet, and is that worker's. -/
theorem answer_underway (h : MsgInv s.pipe) {i : Fin ns} {m : Nat} (hpc : s.pipe.sig i = .answer m) :
    m ∈ s.pipe.sent ∧ (∀ k, m ∉ s.pipe.answered k) ∧ (s.pipe.msgs m).worker = some i := by
  have hat : m ∈ Pipeline.places s.pipe (.replyHand i) := by simp [Pipeline.places, hpc, Pipeline.SigPc.incoming]
  refine ⟨h.flows.mem_entered hat, fun k hk => ?_, h.sender (.inr (.inr (.inl rfl))) hat⟩
  have hp := h.flows.unique h.nodup_sent (p := .answered k) hk hat
  cases hp

/-- A signaling worker's step: `new_conn` and `_response_server_offer` work on the connections, the others do not. -/
theorem inv_sig (h : Inv s) {i : Fin ns} {a : Addr} {zmalloced : Bool} {p : Pipeline.St ns n}
    (hok : NewPlace s.pipe i a (s.pipe.sig i)) (hp : Pipeline.step s.pipe (.sig i) = some p)
    (he : effect s.pipe { s with pipe := p } a zmalloced (.sig i) = some s') : Inv s' := by
  have hf := frame_step (fun _ _ he => by cases he) hp
  have hi := h.pipe_step hp hf
  unfold effect at he
  cases hpc : s.pipe.sig i with
  | newConn d =>
    rw [hpc] at hok
    simp only [hpc] at he
    split at he
    · rename_i ha
      cases he
      refine inv_newConn hi (Option.isNone_iff_eq_none.1 ha) (fun m hm hans hw hcn => ?_)
      simp only at hm hans hw hcn ⊢
      rw [hf.sent] at hm
      rw [hf.worker] at hw
      rw [hf.conn] at hcn
      rw [hf.fd]
      exact hok m hm (fun k hk => hans k (hf.answered k m hk)) hw hcn
    · cases he
  | answer m =>
    obtain ⟨hm, hans, hw⟩ := answer_underway h.msgs hpc
    simp only [hpc] at he
    split at he
    · cases he
      refine inv_responseServerOffer hi (by simpa only [hf.sent] using hm) (fun b hcn hb => ?_) zmalloced
      simp only at hcn hb ⊢
      rw [hf.conn] at hcn
      rw [hf.fd] at hb
      exact h.same m hm hans i b hw hcn hb
    · cases he
      exact hi
  | _ =>
    simp only [hpc] at he
    cases he
    exact hi

theorem inv_pipe (h : Inv s) {l : Pipeline.Label ns n} {a : Addr} {zmalloced : Bool} {p : Pipeline.St ns n}
    (hok : NoReuse s (.pipe l a zmalloced)) (hp : Pipeline.step s.pipe l = some p)
    (he : effect s.pipe { s with pipe := p } a zmalloced l = some s') : Inv s' := by
  cases l with
  | pushRequest i r => cases he
  | sig i => exact inv_sig h hok hp he
  | accept fd =>
    have hi := h.pipe_step hp (frame_step (fun _ _ he => by cases he) hp)
    cases fd with
    | none =>
      cases he
      exact hi
    | some fd =>
      simp only [effect] at he
      split at he <;> cases he
      exact ⟨hi.msgs, hi.table, hi.same, hi.appended⟩
  | _ =>
    cases he
    exact h.pipe_step hp (frame_step (fun _ _ he => by cases he) hp)

/-- **Every step without reuse keeps the invariant.** -/
theorem inv_step {l : Label ns n} (h : Inv s) (hok : NoReuse s l) (hs : step s l = some s') : Inv s' := by
  unfold step at hs
  split at hs
  · cases hs
  · cases l with
    | push i fd r => exact inv_push h hs
    | close i a =>
      cases hc : s.heap a with
      | none =>
        simp only [hc] at hs
        cases hs
      | some c =>
        simp only [hc] at hs
        split at hs
        · rename_i ho
          cases hs
          exact inv_closeConn h hc ho.1
        · cases hs
    | pipe l a zmalloced =>
      obtain ⟨p, hp, he⟩ := Option.bind_eq_some_iff.1 hs
      exact inv_pipe h hok hp he

end Kept

theorem inv_init : Inv (init : St ns n) := by
  refine ⟨Pipeline.msgInv_init, ?_, ?_, ?_⟩
  · intro i fd a h
    rw [slot_eq_some] at h
    obtain ⟨-, h⟩ := h
    cases h
  · intro m hm
    cases hm
  · intro m k hmk
    cases hmk

/-- **A reply reaches the connection it was asked on, as long as no connection takes the place of one whose message is
under way.**  In every run without such a reuse, whatever the accepts, closes, addresses and descriptors: every reply
appended went to the very connection its message was created on. -/
theorem reply_reaches_its_connection (s : St ns n) (h : Lts.Via step NoReuse init s) (m k : Nat)
    (hmk : (m, k) ∈ s.appended) : s.origin m = k := by
  have hinv : Inv s := h.invariant inv_init (fun _ _ _ hi hok hs => inv_step hi hok hs)
  exact (hinv.appended m k hmk).2

def onlySignaling : Fin 1 := ⟨0, Nat.zero_lt_one⟩

def onlyWorker : Fin WorkerNum.one.val := ⟨0, Nat.zero_lt_one⟩

/-- A client on descriptor `fd` is accepted and its connection allocated at address `a`. -/
def connect (fd : Int) (a : Addr) : List (Label 1 .one) :=
  [.pipe (.accept (some fd)) 0 true, .pipe .dispatch 0 true, .pipe .dispatch 0 true, .pipe .dispatch 0 true,
    .pipe (.sig onlySignaling) 0 true, .pipe (.sig onlySignaling) 0 true, .pipe (.sig onlySignaling) a true]

/-- A message leaves signaling worker 0 for the RTC server. -/
def ask (fd : Int) : List (Label 1 .one) :=
  [.push onlySignaling fd ⟨7, [97], 1, 1, 9, 0, 0⟩, .pipe (.sig onlySignaling) 0 true,
    .pipe (.sig onlySignaling) 0 true]

/-- It goes through the RTC server and the RTC worker and is answered. -/
def reply : List (Label 1 .one) :=
  List.replicate 4 (.pipe .server 0 true) ++ List.replicate 4 (.pipe (.worker onlyWorker) 0 true) ++
    List.replicate 3 (.pipe (.sig onlySignaling) 0 true)

theorem reply_reaches_its_connection_reconnect : ∃ s : St 1 .one,
    Lts.run (Lts.guarded NoReuse step) init
      (connect 5 3 ++ ask 5 ++ reply ++ [.close onlySignaling 3] ++ connect 5 3 ++ ask 5 ++ reply) = some s ∧
    s.appended = [(0, 0), (1, 1)] ∧ s.origin 1 = 1 := by
  have hend : (Lts.run (Lts.guarded NoReuse step) init
      (connect 5 3 ++ ask 5 ++ reply ++ [.close onlySignaling 3] ++ connect 5 3 ++ ask 5 ++ reply)).map
        (fun s => s.appended) = some [(0, 0), (1, 1)] := by decide
  obtain ⟨s, hs, happ⟩ := Option.map_eq_some_iff.1 hend
  exact ⟨s, hs, happ, reply_reaches_its_connection s (Lts.Via.of_run .start hs) 1 1 (by rw [happ]; decide)⟩

/-- **A reply can reach another client.**  The first client asks and its connection is closed before the reply is back;
the next client is accepted on the same descriptor, its connection allocated at the same address; the reply to the
first client is appended to the second one's list. -/
theorem reply_reaches_another_client : ∃ s : St 1 .one, Lts.Reachable step init s ∧
    s.origin 0 = 0 ∧ s.appended = [(0, 1)] := by
  have hend : (Lts.run step init (connect 5 3 ++ ask 5 ++ [.close onlySignaling 3] ++ connect 5 3 ++ reply)).map
      (fun s : St 1 .one => (s.origin 0, s.appended)) = some (0, [(0, 1)]) := by decide
  obtain ⟨s, hs, happ⟩ := Option.map_eq_some_iff.1 hend
  rw [Prod.mk.injEq] at happ
  exact ⟨s, Lts.Reachable.of_run hs, happ.1, happ.2⟩

end ConnReuse
end Xrtc
