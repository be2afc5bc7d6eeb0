import Xrtc.Blocks
import Xrtc.Descriptors
/-!
# ReplyBlocks — the memory of the replies

`_response_server_offer` allocates a block for its reply with `zmalloc`, `_write_reply` gives it back with `zfree` when
its last byte is out, and `close_conn_` deletes the connection: `~TcpConnection` frees the query buffer only, so the
blocks of the replies still queued are never freed.  `blockOps` lists what a callback of `ConnTable` does to the blocks,
and `memStep` runs the callbacks with the books (`Blocks`) beside them.
-/
namespace Xrtc
namespace ConnTable

open EventLoop (Libev IOWatcher READ WRITE)
open ConnReuse (slot slot_eq_some)
open IdleTimeout (timedOut connTimerCb_eq)
open Blocks (Op Place Books Kept)

variable {ns : Nat}

/-! ## What the callbacks do to the blocks -/

def readOps (s : St ns) (i : Fin ns) (fd : Int) (rd : ReadAct) : List (Op Addr) :=
  match slot (s.conns i) fd with
  | none => []
  | some a => match s.heap a with
    | none => []
    | some c => match Query.readQuery rd.outcome rd.fuel ⟨c.tcp, .idle, []⟩ rd.now rd.r with
      | none => []
      | some q => if q.phase = .closed then [.abandon a] else []

/-- Each `zfree` of the loop is of the front reply. -/
def writeOps (s : St ns) (i : Fin ns) (fd : Int) (wr : WriteAct) : List (Op Addr) :=
  match WriteReply.writeTarget (s.conns i) fd with
  | none => []
  | some a => match s.heap a with
    | none => []
    | some c => [.release a (writeLoop a c.tcp wr).freed.length]

def ioOps (s : St ns) (e : IoEntry ns) (events : BitVec 32) (rd : ReadAct) (wr : WriteAct) : List (Op Addr) :=
  if events &&& READ ≠ 0 then
    readOps s e.loop e.io.fd rd ++ (match readQuery s e.loop e.io.fd rd with
      | none => []
      | some s => if events &&& WRITE ≠ 0 then writeOps s e.loop e.io.fd wr else [])
  else if events &&& WRITE ≠ 0 then writeOps s e.loop e.io.fd wr else []

def timerOps (timeout : Nat) (s : St ns) (e : TimerEntry ns) (now : Nat) : List (Op Addr) :=
  match s.heap e.conn with
  | none => []
  | some c => if timedOut timeout c.tcp now = true then [.abandon e.conn] else []

/-- `zmalloc` comes after the guards of `_response_server_offer`; `none` is its failure. -/
def answerOps (s : St ns) (i : Fin ns) (msg : RtcMsg (Fin ns)) (reply : Option Slice) : List (Op Addr) :=
  match Offer.replyTarget (s.conns i) msg with
  | none => []
  | some a => match reply with
    | none => []
    | some _ => [.alloc a]

def blockOps (timeout : Nat) (s : St ns) : Label ns → List (Op Addr)
  | .accept _ => []
  | .newConn _ _ _ _ _ _ _ => []
  | .io w events rd wr => match s.ios w with
    | none => []
    | some e => ioOps s e events rd wr
  | .timer t now => match s.timers t with
    | none => []
    | some e => timerOps timeout s e now
  | .reply i msg reply => answerOps s i msg reply

/-- The callbacks with the books of the reply blocks. -/
def memStep (ev : Libev) (timeout : Nat) (p : St ns × Books Addr) (l : Label ns) : Option (St ns × Books Addr) :=
  (step ev timeout p.1 l).map (fun s' => (s', p.2.applyAll (blockOps timeout p.1 l)))

def memInit : St ns × Books Addr := (init, Blocks.empty)

/-- The replies queued on the connection at an address; no connection, no replies. -/
def queued (s : St ns) (a : Addr) : Nat := (s.heap a).elim 0 (fun c => c.tcp.replyList.length)

/-- The books have one block for each queued reply. -/
def Tied (s : St ns) (b : Books Addr) : Prop := ∀ a, (b.held (.owned a)).length = queued s a

/-- What `ops` does to the books is what happened to the queues from `s` to `s'`; a connection is abandoned when it is
deleted, before anything else, and allocates only when it is not. -/
structure Follows (s s' : St ns) (ops : List (Op Addr)) : Prop where
  tied : ∀ b, Tied s b → Tied s' (b.applyAll ops)
  kept : ∀ a, Op.alloc a ∈ ops → s'.heap a ≠ none
  gone : ∀ a, Op.abandon a ∈ ops → s'.heap a = none
  first : ∀ a, (s.heap a).isSome → s'.heap a = none → ∃ rest, ops = .abandon a :: rest

section Follows
variable {s s' s'' : St ns} {ops ops' : List (Op Addr)}

/-- Nothing is queued or sent, and no connection goes away. -/
theorem follows_nil (hq : ∀ a, queued s' a = queued s a) (hlive : ∀ a, s'.heap a = none → s.heap a = none) :
    Follows s s' [] := by
  refine ⟨fun b hb a => ?_, fun a ha => absurd ha List.not_mem_nil, fun a ha => absurd ha List.not_mem_nil,
    fun a ha ha' => ?_⟩
  · rw [Books.applyAll_nil, hb a, hq a]
  · rw [hlive a ha'] at ha
    cases ha

theorem queued_update {a : Addr} {x : Option Conn} (h : s'.heap = Function.update s.heap a x) (o : Addr) :
    queued s' o = if o = a then x.elim 0 (fun c => c.tcp.replyList.length) else queued s o := by
  unfold queued
  rw [h]
  by_cases ho : o = a
  · rw [if_pos ho, ho, Function.update_self]
  · rw [if_neg ho, Function.update_of_ne ho]

theorem live_update {a : Addr} {d : Conn} (h : s'.heap = Function.update s.heap a (some d)) {o : Addr}
    (ho : s'.heap o = none) : s.heap o = none := by
  rw [h] at ho
  by_cases hoa : o = a
  · rw [hoa, Function.update_self] at ho
    cases ho
  · rw [Function.update_of_ne hoa] at ho
    exact ho

/-- One connection's queue changes, and its books with it. -/
theorem tied_update {b b' : Books Addr} (hb : Tied s b) {a : Addr} {x : Option Conn}
    (h : s'.heap = Function.update s.heap a x)
    (hself : (b'.held (.owned a)).length = x.elim 0 (fun c => c.tcp.replyList.length))
    (hother : ∀ o, o ≠ a → b'.held (.owned o) = b.held (.owned o)) : Tied s' b' := by
  intro o
  rw [queued_update h]
  by_cases ho : o = a
  · rw [if_pos ho, ho, hself]
  · rw [if_neg ho, hother o ho, hb o]

/-- `zmalloc` and `_add_reply`. -/
theorem follows_alloc {a : Addr} {c d : Conn} (reply : Slice) (hc : s.heap a = some c)
    (hd : d.tcp.replyList = c.tcp.replyList ++ [reply]) (h : s'.heap = Function.update s.heap a (some d)) :
    Follows s s' [.alloc a] := by
  refine ⟨fun b hb => ?_, fun o ho ho' => ?_, fun o ho => ?_, fun o ho ho' => ?_⟩
  · refine tied_update hb h ?_ (fun o ho => Blocks.held_alloc_of_ne (by simpa using ho))
    have hlen := hb a
    rw [queued, hc, Option.elim_some] at hlen
    simp only [Books.applyAll_cons, Books.applyAll_nil, Books.apply, Blocks.held_alloc_self, List.length_append, hlen,
      Option.elim_some, hd, List.length_singleton]
  · cases List.mem_singleton.1 ho
    rw [h, Function.update_self] at ho'
    cases ho'
  · cases List.mem_singleton.1 ho
  · rw [live_update h ho'] at ho
    cases ho

/-- `k` replies go out and are freed. -/
theorem follows_release {a : Addr} {c d : Conn} (hc : s.heap a = some c) {k : Nat}
    (hd : d.tcp.replyList = c.tcp.replyList.drop k) (h : s'.heap = Function.update s.heap a (some d)) :
    Follows s s' [.release a k] := by
  refine ⟨fun b hb => ?_, fun o ho => ?_, fun o ho => ?_, fun o ho ho' => ?_⟩
  · refine tied_update hb h ?_ (fun o ho => Blocks.held_move_of_ne (by simpa using ho) (by simp) k)
    have hlen := hb a
    rw [queued, hc, Option.elim_some] at hlen
    simp only [Books.applyAll_cons, Books.applyAll_nil, Books.apply]
    rw [Blocks.held_move_source (by simp), List.length_drop, hlen, Option.elim_some, hd, List.length_drop]
  · cases List.mem_singleton.1 ho
  · cases List.mem_singleton.1 ho
  · rw [live_update h ho'] at ho
    cases ho

/-- `delete conn`. -/
theorem follows_abandon {a : Addr} (h : s'.heap = Function.update s.heap a none) : Follows s s' [.abandon a] := by
  refine ⟨fun b hb => ?_, fun o ho => ?_, fun o ho => ?_, fun o ho ho' => ?_⟩
  · refine tied_update hb h ?_ (fun o ho => Blocks.held_move_of_ne (by simpa using ho) (by simp) _)
    simp only [Books.applyAll_cons, Books.applyAll_nil, Books.apply]
    rw [Blocks.held_move_source (by simp), List.length_drop, Option.elim_none, Nat.sub_self]
  · cases List.mem_singleton.1 ho
  · cases List.mem_singleton.1 ho
    rw [h, Function.update_self]
  · by_cases hoa : o = a
    · exact ⟨[], by rw [hoa]⟩
    · rw [h, Function.update_of_ne hoa] at ho'
      rw [ho'] at ho
      cases ho

/-- A second half in which no connection goes away or comes. -/
theorem Follows.trans (h : Follows s s' ops) (h' : Follows s' s'' ops')
    (hlive : ∀ a, s''.heap a = none ↔ s'.heap a = none) : Follows s s'' (ops ++ ops') := by
  refine ⟨fun b hb => ?_, fun a ha ha' => ?_, fun a ha => ?_, fun a ha ha' => ?_⟩
  · rw [Books.applyAll_append]
    exact h'.tied _ (h.tied b hb)
  · rcases List.mem_append.1 ha with ha | ha
    · exact h.kept a ha ((hlive a).1 ha')
    · exact h'.kept a ha ha'
  · rcases List.mem_append.1 ha with ha | ha
    · exact (hlive a).2 (h.gone a ha)
    · exact h'.gone a ha
  · obtain ⟨rest, hrest⟩ := h.first a ha ((hlive a).1 ha')
    exact ⟨rest ++ ops', by rw [hrest, List.cons_append]⟩

end Follows

/-! ## The callbacks -/

/-- The loop frees the replies it takes off the list. -/
theorem writeLoop_split (a : Addr) (c : TcpConnection) (now : Nat) (σ : Nat → WriteReply.SysWrite) : ∀ n,
    c.replyList = (WriteReply.loop ⟨a, c, true, .writing, [], [], []⟩ now σ n).freed ++
      (WriteReply.loop ⟨a, c, true, .writing, [], [], []⟩ now σ n).conn.replyList
  | 0 => rfl
  | n + 1 => by
    have ih := writeLoop_split a c now σ n
    generalize ht : WriteReply.loop ⟨a, c, true, .writing, [], [], []⟩ now σ n = t at ih
    have hturn : t.freed ++ t.conn.replyList =
        (WriteReply.iterate t now (σ n)).freed ++ (WriteReply.iterate t now (σ n)).conn.replyList := by
      unfold WriteReply.iterate
      cases hl : t.conn.replyList with
      | nil => simp [hl]
      | cons reply rest =>
        simp only
        split
        · rw [← hl]
        · split
          · rw [← hl]
          · split
            · rw [List.append_assoc, List.singleton_append]
            · rw [← hl]
    rw [WriteReply.loop, ht, ih]
    split
    · exact hturn
    · rfl

section Callbacks
variable {s s' : St ns} {ev : Libev} {timeout : Nat}

theorem follows_close {a : Addr} {c : Conn} {i : Fin ns} {io : IOWatcher} (hok : ConnOk s i a c io) :
    Follows s (closeConn s i a c) [.abandon a] := by
  refine follows_abandon ?_
  unfold closeConn
  rw [if_neg hok.closable]

theorem follows_newConn (h : Inv s) {i : Fin ns} {a : Addr} (ha : s.heap a = none) (w t : Addr) (ioFd : Int)
    (ioEvents : BitVec 32) (now : Nat) : Follows s (newConnStep ev s i a w t ioFd ioEvents now) [] := by
  unfold newConnStep
  cases hq : s.connQueue i with
  | nil => exact follows_nil (fun _ => rfl) (fun _ h => h)
  | cons fd rest =>
    obtain ⟨hpos, hmax, -⟩ := h.queued i fd (by rw [hq]; exact List.mem_cons_self)
    obtain ⟨table, htab, -⟩ := setConn_table (s.conns i) fd.toNat (by omega) (.inr (by omega)) a
    simp only
    rw [if_neg (by omega), htab]
    refine follows_nil (fun o => ?_) (fun o ho => live_update (s := s) (a := a) rfl ho)
    rw [queued_update (s := s) (a := a) rfl o]
    split
    · rename_i ho
      rw [ho, queued, ha]
      rfl
    · rfl

theorem follows_readQuery (h : Inv s) {i : Fin ns} {fd : Int} {rd : ReadAct} (hs : readQuery s i fd rd = some s') :
    Follows s s' (readOps s i fd rd) := by
  unfold readQuery at hs
  unfold readOps
  cases hsl : slot (s.conns i) fd with
  | none =>
    rw [hsl] at hs
    cases hs
    exact follows_nil (fun _ => rfl) (fun _ h => h)
  | some a =>
    obtain ⟨c, io, hc, -, hok⟩ := h.at_slot (slot_eq_some.1 hsl).2
    simp only [hsl, hc] at hs ⊢
    cases hq : Query.readQuery rd.outcome rd.fuel ⟨c.tcp, .idle, []⟩ rd.now rd.r with
    | none =>
      simp only [hq] at hs
      cases hs
    | some q =>
      simp only [hq] at hs ⊢
      split at hs
      · rename_i hclosed
        cases hs
        rw [if_pos hclosed]
        exact follows_close hok
      · rename_i hopen
        cases hs
        rw [if_neg hopen]
        refine follows_nil (fun o => ?_) (fun o ho => live_update (s := s) (a := a) rfl ho)
        rw [queued_update (s := s) (a := a) rfl o]
        split
        · rename_i ho
          rw [ho, queued, hc, Option.elim_some, Option.elim_some, (readQuery_frame hq).2]
        · rfl

theorem follows_writeReply (h : Inv s) {i : Fin ns} {fd : Int} {wr : WriteAct} (hs : writeReply ev s i fd wr = some s') :
    Follows s s' (writeOps s i fd wr) ∧ ∀ a, s'.heap a = none ↔ s.heap a = none := by
  unfold writeReply at hs
  unfold writeOps
  cases hsl : WriteReply.writeTarget (s.conns i) fd with
  | none =>
    rw [hsl] at hs
    cases hs
    exact ⟨follows_nil (fun _ => rfl) (fun _ h => h), fun _ => Iff.rfl⟩
  | some a =>
    obtain ⟨c, io, hc, -, hok⟩ := h.at_slot (writeTarget_eq_some hsl)
    simp only [hsl, hc] at hs ⊢
    have hdrop : (writeLoop a c.tcp wr).conn.replyList = c.tcp.replyList.drop (writeLoop a c.tcp wr).freed.length := by
      have hsplit := writeLoop_split a c.tcp wr.now wr.answers wr.turns
      conv => rhs; rw [hsplit]
      exact List.drop_left.symm
    have hput : ∀ s₁ : St ns, s₁.heap =
        Function.update s.heap a (some { c with tcp := (writeLoop a c.tcp wr).conn }) →
        Follows s s₁ [.release a (writeLoop a c.tcp wr).freed.length] ∧ ∀ o, s₁.heap o = none ↔ s.heap o = none := by
      intro s₁ h₁
      refine ⟨follows_release hc hdrop h₁, fun o => ⟨live_update h₁, fun ho => ?_⟩⟩
      have hoa : o ≠ a := by
        rintro rfl
        rw [hc] at ho
        cases ho
      rw [h₁, Function.update_of_ne hoa]
      exact ho
    split at hs
    · split at hs
      · cases hs
        exact hput _ rfl
      · simp only [hok.ioWatcher] at hs
        cases hs
        exact hput _ rfl
    · cases hs

theorem follows_connIoCb (h : Inv s) {e : IoEntry ns} {events : BitVec 32} {rd : ReadAct} {wr : WriteAct}
    (hs : connIoCb ev s e events rd wr = some s') : Follows s s' (ioOps s e events rd wr) := by
  obtain ⟨s₁, h1, h2⟩ := Option.bind_eq_some_iff.1 hs
  unfold ioOps
  by_cases hr : events &&& READ ≠ 0
  · rw [if_pos hr] at h1 ⊢
    have hinv := inv_readQuery h h1
    have hread := follows_readQuery h h1
    rw [h1]
    simp only
    rw [if_neg (by rw [hinv.not_crashed e.loop]; decide)] at h2
    by_cases hw : events &&& WRITE ≠ 0
    · rw [if_pos hw] at h2 ⊢
      obtain ⟨hwrite, hlive⟩ := follows_writeReply hinv h2
      exact hread.trans hwrite hlive
    · rw [if_neg hw] at h2 ⊢
      cases h2
      rw [List.append_nil]
      exact hread
  · rw [if_neg hr] at h1 ⊢
    cases h1
    rw [if_neg (by rw [h.not_crashed e.loop]; decide)] at h2
    by_cases hw : events &&& WRITE ≠ 0
    · rw [if_pos hw] at h2 ⊢
      exact (follows_writeReply h h2).1
    · rw [if_neg hw] at h2 ⊢
      cases h2
      exact follows_nil (fun _ => rfl) (fun _ h => h)

theorem follows_connTimerCb (h : Inv s) {t : Addr} {e : TimerEntry ns} (ht : s.timers t = some e) (now : Nat) :
    Follows s (connTimerCb timeout s e now) (timerOps timeout s e now) := by
  obtain ⟨c, io, hc, -, hok⟩ := h.at_timer ht
  rw [connTimerCb_eq timeout s e now hc]
  simp only [timerOps, hc]
  split
  · exact follows_close hok
  · exact follows_nil (fun _ => rfl) (fun _ h => h)

theorem follows_answerStep (h : Inv s) (i : Fin ns) (msg : RtcMsg (Fin ns)) (reply : Option Slice) :
    Follows s (answerStep ev s i msg reply) (answerOps s i msg reply) := by
  unfold answerStep answerOps
  cases ht : Offer.replyTarget (s.conns i) msg with
  | none => exact follows_nil (fun _ => rfl) (fun _ h => h)
  | some a =>
    obtain ⟨c, io, hc, -, hok⟩ := h.at_slot (slot_eq_some.1 (ConnReuse.replyTarget_eq_some ht).2).2
    simp only [hc]
    cases reply with
    | none => exact follows_nil (fun _ => rfl) (fun _ h => h)
    | some reply =>
      simp only [hok.ioWatcher]
      exact follows_alloc reply hc rfl rfl

/-- **Every callback does to the blocks what it does to the queues.** -/
theorem step_follows (h : Inv s) {l : Label ns} (hs : step ev timeout s l = some s') :
    Follows s s' (blockOps timeout s l) := by
  unfold step at hs
  split at hs
  · cases hs
  · cases l with
    | accept fd =>
      simp only at hs
      split at hs
      · cases hs
        refine follows_nil (fun o => ?_) (fun o ho => ?_)
        · unfold acceptStep
          simp only
          split <;> rfl
        · unfold acceptStep at ho
          simp only at ho
          split at ho <;> exact ho
      · cases hs
    | newConn i a w t ioFd ioEvents now =>
      simp only [Option.isNone_iff_eq_none] at hs
      split at hs
      · rename_i hok
        cases hs
        exact follows_newConn h hok.1 w t ioFd ioEvents now
      · cases hs
    | io w events rd wr =>
      simp only [blockOps] at hs ⊢
      cases he : s.ios w with
      | none =>
        simp only [he] at hs
        cases hs
      | some e =>
        simp only [he] at hs ⊢
        split at hs
        · exact follows_connIoCb h hs
        · cases hs
    | timer t now =>
      simp only [blockOps] at hs ⊢
      cases he : s.timers t with
      | none =>
        simp only [he] at hs
        cases hs
      | some e =>
        simp only [he] at hs ⊢
        cases hs
        exact follows_connTimerCb h he now
    | reply i msg reply =>
      cases hs
      exact follows_answerStep h i msg reply

end Callbacks

/-! ## Whole runs -/

section Runs
variable {ev : Libev} {timeout : Nat}

structure Booked (s : St ns) (b : Books Addr) : Prop where
  inv : Inv s
  tied : Tied s b
  kept : Kept b

theorem booked_init : Booked (init : St ns) Blocks.empty :=
  ⟨inv_init, fun _ => rfl, Blocks.kept_empty⟩

theorem memStep_eq_some {s s' : St ns} {b b' : Books Addr} {l : Label ns} :
    memStep ev timeout (s, b) l = some (s', b') ↔
      step ev timeout s l = some s' ∧ b' = b.applyAll (blockOps timeout s l) := by
  simp only [memStep, Option.map_eq_some_iff, Prod.mk.injEq]
  constructor
  · rintro ⟨s₁, hs, rfl, rfl⟩
    exact ⟨hs, rfl⟩
  · rintro ⟨hs, rfl⟩
    exact ⟨s', hs, rfl, rfl⟩

theorem booked_step {s s' : St ns} {b b' : Books Addr} {l : Label ns} (h : Booked s b)
    (hs : memStep ev timeout (s, b) l = some (s', b')) : Booked s' b' := by
  obtain ⟨hstep, rfl⟩ := memStep_eq_some.1 hs
  exact ⟨inv_step h.inv hstep, (step_follows h.inv hstep).tied b h.tied, h.kept.applyAll _⟩

theorem reachable_booked {s : St ns} {b : Books Addr} (h : Lts.Reachable (memStep ev timeout) memInit (s, b)) :
    Booked s b :=
  h.invariant (I := fun p => Booked p.1 p.2) booked_init (fun _ _ _ hi hs => booked_step hi hs)

/-- No callback of the run deletes a connection that has replies queued. -/
def Clean (ev : Libev) (timeout : Nat) : St ns → List (Label ns) → Prop
  | _, [] => True
  | s, l :: ls => ∀ s', step ev timeout s l = some s' →
      (∀ a c, s.heap a = some c → s'.heap a = none → c.tcp.replyList = []) ∧ Clean ev timeout s' ls

theorem Booked.held_eq_nil {s : St ns} {b : Books Addr} (h : Booked s b) {a : Addr} {c : Conn} (hc : s.heap a = some c) :
    b.held (.owned a) = [] ↔ c.tcp.replyList = [] := by
  have hlen := h.tied a
  rw [queued, hc, Option.elim_some] at hlen
  rw [← List.length_eq_zero_iff, hlen, List.length_eq_zero_iff]

/-- One callback leaves a block behind exactly when it deletes a connection with replies queued. -/
theorem lost_step {s s' : St ns} {b b' : Books Addr} {l : Label ns} (h : Booked s b)
    (hs : memStep ev timeout (s, b) l = some (s', b')) :
    b'.held .lost = b.held .lost ↔ ∀ a c, s.heap a = some c → s'.heap a = none → c.tcp.replyList = [] := by
  obtain ⟨hstep, rfl⟩ := memStep_eq_some.1 hs
  have hfollows := step_follows h.inv hstep
  constructor
  · intro hlost a c hc hgone
    -- what the books had for it is among the lost at once, and stays there
    obtain ⟨rest, hrest⟩ := hfollows.first a (by rw [hc]; rfl) hgone
    have hlen := (Blocks.lost_grows rest (b.apply (.abandon a))).length_le
    rw [← Books.applyAll_cons, ← hrest, hlost, Books.apply, Blocks.held_move_target, List.take_length,
      List.length_append] at hlen
    exact (h.held_eq_nil hc).1 (List.length_eq_zero_iff.1 (by omega))
  · intro hclean
    refine Blocks.lost_eq _ _ (fun a ha => ?_)
    have hgone := hfollows.gone a ha
    refine ⟨?_, fun hmem => hfollows.kept a hmem hgone⟩
    cases hc : s.heap a with
    | none =>
      have hlen := h.tied a
      rw [queued, hc] at hlen
      exact List.length_eq_zero_iff.1 hlen
    | some c => exact (h.held_eq_nil hc).2 (hclean a c hc hgone)

theorem lost_run : ∀ (ls : List (Label ns)) {s s' : St ns} {b b' : Books Addr}, Booked s b →
    Lts.run (memStep ev timeout) (s, b) ls = some (s', b') →
    b.held .lost <+: b'.held .lost ∧ (b'.held .lost = b.held .lost ↔ Clean ev timeout s ls)
  | [], s, s', b, b', _, hr => by
    simp only [Lts.run, Option.some.injEq, Prod.mk.injEq] at hr
    rw [← hr.2]
    exact ⟨List.prefix_rfl, iff_of_true rfl trivial⟩
  | l :: ls, s, s', b, b', h, hr => by
    obtain ⟨⟨s₁, b₁⟩, hs, hr⟩ := Option.bind_eq_some_iff.1 hr
    obtain ⟨hpre, hrest⟩ := lost_run ls (booked_step h hs) hr
    obtain ⟨hstep, hb₁⟩ := memStep_eq_some.1 hs
    have hone : b.held .lost <+: b₁.held .lost := hb₁ ▸ Blocks.lost_grows _ b
    refine ⟨hone.trans hpre, ?_⟩
    have hclean : Clean ev timeout s (l :: ls) ↔
        b₁.held .lost = b.held .lost ∧ b'.held .lost = b₁.held .lost := by
      rw [lost_step h hs, hrest]
      constructor
      · exact fun hc => hc s₁ hstep
      · intro hc s₂ hs₂
        rw [hstep, Option.some.injEq] at hs₂
        exact hs₂ ▸ hc
    rw [hclean]
    constructor
    · intro he
      have h1 := hone.length_le
      have h2 := hpre.length_le
      rw [he] at h2
      have hfirst := hone.eq_of_length (by omega)
      exact ⟨hfirst.symm, he.trans hfirst⟩
    · exact fun he => he.2.trans he.1

/-- **The server gives its reply memory back exactly when no connection goes away with replies queued**: at the end of
any run that leaves no connection open, every block allocated has been freed if and only if no callback of the run
deleted a connection with a reply still on its list. -/
theorem replies_freed_iff (ev : Libev) (timeout : Nat) (ls : List (Label ns)) (s : St ns) (b : Books Addr)
    (h : Lts.run (memStep ev timeout) memInit ls = some (s, b)) (hend : ∀ a, s.heap a = none) :
    (b.held .freed).length = b.made ↔ Clean ev timeout init ls := by
  have hb := reachable_booked (Lts.Reachable.of_run h)
  have hall : ∀ p : Place Addr, b.held p ≠ [] → p ∈ [Place.freed, Place.lost] := by
    intro p hp
    cases p with
    | owned a =>
      have hlen := hb.tied a
      rw [queued, hend a] at hlen
      exact absurd (List.length_eq_zero_iff.1 hlen) hp
    | freed => simp
    | lost => simp
  have hmade := hb.kept.made_eq (by simp) hall
  simp only [List.map_cons, List.map_nil, List.sum_cons, List.sum_nil] at hmade
  rw [← (lost_run ls booked_init h).2, show (Blocks.empty : Books Addr).held .lost = [] from rfl,
    ← List.length_eq_zero_iff, hmade]
  omega

end Runs

/-! ## The leak -/

/-- No connection, whatever the table has grown to. -/
def quiet (table : List (Option Addr)) : St 1 := { init with conns := fun _ => table }

/-- The peer has closed. -/
def hangUp : ReadAct := ⟨8, .bytes [], fun _ => 0, 2⟩

/-- A client gets its reply queued and hangs up before the socket is writable. -/
def hangUpRound : List (Label 1) :=
  [.accept 5, .newConn worker0 3 4 6 0 0x80 7,
    .reply worker0 { cmdno := 1, conn := some 3, fd := 5 } (some ⟨fun _ => 9, 3⟩), .io 4 READ hangUp twoThenError]

theorem update_worker0 {T : Type} (f : Fin 1 → T) (x : T) : Function.update f worker0 x = fun _ => x := by
  funext i
  rw [Subsingleton.elim i worker0, Function.update_self]

/-- What came goes. -/
theorem update_back {A B : Type} [DecidableEq A] (f : A → B) (a : A) (u v : B) :
    Function.update (Function.update (Function.update f a u) a v) a (f a) = f := by
  rw [Function.update_idem, Function.update_idem, Function.update_eq_self]

theorem update_back_once {A B : Type} [DecidableEq A] (f : A → B) (a : A) (u : B) :
    Function.update (Function.update f a u) a (f a) = f := by
  rw [Function.update_idem, Function.update_eq_self]

/-- The state `hangUpRound` ends in, as the callbacks build it. -/
theorem quiet_of_round (f : Fin 1 → List (Option Addr)) (table : List (Option Addr)) (c d : Option Conn)
    (e e' : Option (IoEntry 1)) (t : Option (TimerEntry 1)) (q : List Int) :
    (⟨Function.update f worker0 table,
      Function.update (Function.update (Function.update (fun _ => none) 3 c) 3 d) 3 none,
      Function.update (Function.update (Function.update (fun _ => none) 4 e) 4 e') 4 none,
      Function.update (Function.update (fun _ => none) 6 t) 6 none,
      Function.update (Function.update (fun _ => []) worker0 q) worker0 [], 0,
      Function.update (Function.update (fun _ => false) 5 true) 5 false, false⟩ : St 1) = quiet table := by
  unfold quiet init
  rw [St.mk.injEq]
  exact ⟨update_worker0 _ _, update_back (fun _ => none) 3 c d, update_back (fun _ => none) 4 e e',
    update_back_once (fun _ => none) 6 t, update_back_once (fun _ => []) worker0 q, rfl,
    update_back_once (fun _ => false) 5 true, rfl⟩

/-- Four callbacks, and nothing is left of the client but the block. -/
theorem run_hangUpRound {table : List (Option Addr)} (ht : table = [] ∨ table = List.replicate 10 none)
    (b : Books Addr) : Lts.run (memStep EventLoop.libev 1000) (quiet table, b) hangUpRound =
      some (quiet (List.replicate 10 none), b.applyAll [.alloc 3, .abandon 3]) := by
  rcases ht with rfl | rfl
  · refine Eq.trans (b := some (St.mk _ _ _ _ _ _ _ _, b.applyAll [.alloc 3, .abandon 3])) rfl ?_
    exact congrArg (fun s => some (s, b.applyAll [.alloc 3, .abandon 3])) (quiet_of_round _ _ _ _ _ _ _ _)
  · refine Eq.trans (b := some (St.mk _ _ _ _ _ _ _ _, b.applyAll [.alloc 3, .abandon 3])) rfl ?_
    exact congrArg (fun s => some (s, b.applyAll [.alloc 3, .abandon 3])) (quiet_of_round _ _ _ _ _ _ _ _)

/-- A run of one round is not clean. -/
theorem replies_freed_iff_hangUpRound : ∃ b : Books Addr,
    Lts.run (memStep EventLoop.libev 1000) memInit hangUpRound = some (quiet (List.replicate 10 none), b) ∧
    b.made = 1 ∧ b.held .freed = [] ∧ ¬Clean EventLoop.libev 1000 (init : St 1) hangUpRound := by
  have hrun := run_hangUpRound (.inl rfl) Blocks.empty
  have hfreed : ((Blocks.empty : Books Addr).applyAll [.alloc 3, .abandon 3]).held .freed = [] := by decide
  have hiff := replies_freed_iff EventLoop.libev 1000 hangUpRound _ _ hrun (fun _ => rfl)
  refine ⟨_, hrun, rfl, hfreed, fun hclean => ?_⟩
  have hlen := hiff.2 hclean
  rw [hfreed] at hlen
  cases hlen

theorem run_rounds : ∀ (n : Nat) {table : List (Option Addr)}, (table = [] ∨ table = List.replicate 10 none) →
    ∀ b : Books Addr, b.held (.owned 3) = [] → ∃ (table' : List (Option Addr)) (b' : Books Addr),
      Lts.run (memStep EventLoop.libev 1000) (quiet table, b) (List.replicate n hangUpRound).flatten =
        some (quiet table', b') ∧
      b'.made = b.made + n ∧ b'.held .freed = b.held .freed ∧ (b'.held .lost).length = (b.held .lost).length + n
  | 0, table, _, b, _ => ⟨table, b, rfl, rfl, rfl, rfl⟩
  | n + 1, table, ht, b, hnone => by
    have hround : b.applyAll [.alloc 3, .abandon 3] = (b.alloc 3).move (.owned 3) .lost ((b.alloc 3).held (.owned 3)).length := rfl
    have hself : (b.alloc 3).held (.owned 3) = [b.made] := by rw [Blocks.held_alloc_self, hnone, List.nil_append]
    obtain ⟨table', b', hrun, hmade, hfreed, hlost⟩ := run_rounds n (.inr rfl) (b.applyAll [.alloc 3, .abandon 3]) (by
      rw [hround, Blocks.held_move_source (by simp), List.drop_length])
    refine ⟨table', b', ?_, ?_, ?_, ?_⟩
    · rw [List.replicate_succ, List.flatten_cons, Lts.run_append, run_hangUpRound ht, Option.bind_some, hrun]
    · rw [hmade, hround]
      show b.made + 1 + n = b.made + (n + 1)
      omega
    · rw [hfreed, hround, Blocks.held_move_of_ne (by simp) (by simp), Blocks.held_alloc_of_ne (by simp)]
    · rw [hlost, hround, Blocks.held_move_target, Blocks.held_alloc_of_ne (by simp), hself]
      simp
      omega

/-- **The leak has no bound**: for every `n` there is a run at the end of which no connection and no descriptor is open
and `n` blocks have been allocated, none of them ever freed. -/
theorem leak_unbounded (n : Nat) : ∃ (ls : List (Label 1)) (s : St 1) (b : Books Addr),
    Lts.run (memStep EventLoop.libev 1000) memInit ls = some (s, b) ∧ (∀ a, s.heap a = none) ∧
    (∀ fd, s.opened fd = false) ∧ b.made = n ∧ b.held .freed = [] ∧ (b.held .lost).length = n := by
  obtain ⟨table, b, hrun, hmade, hfreed, hlost⟩ := run_rounds n (.inl rfl) Blocks.empty rfl
  have h0 : (Blocks.empty : Books Addr).made = 0 := rfl
  have hl : ((Blocks.empty : Books Addr).held .lost).length = 0 := rfl
  refine ⟨_, quiet table, b, hrun, fun _ => rfl, fun _ => rfl, ?_, hfreed, ?_⟩
  · rw [hmade, h0, Nat.zero_add]
  · rw [hlost, hl, Nat.zero_add]

end ConnTable
end Xrtc
