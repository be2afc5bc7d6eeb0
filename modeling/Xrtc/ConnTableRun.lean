import Xrtc.ConnTableInv
/-!
# ConnTableRun — what holds between two callbacks

Each callback is put together from the primitive changes of `ConnTableInv.lean`; the invariant then holds in every state
the workers reach, and with it the table laws and the match between a connection's write interest and its queued
replies.
-/
namespace Xrtc
namespace ConnTable

open EventLoop (Libev IOWatcher IoEvent startIoEvent stopIoEvent creatIoEvent READ WRITE armed)
open ConnReuse (slot setConn slot_eq_some)

variable {ns : Nat}

/-! ## Masks -/

theorem maskOk_new (ev : Libev) (fd ioFd : Int) (ioEvents : BitVec 32) (now : Nat) (w t : Addr) :
    MaskOk ⟨{ fd := fd, lastInteractionTime := now }, w, t⟩ (startIoEvent ev (creatIoEvent ioFd ioEvents) fd READ) := by
  obtain ⟨ha, hf, hr, hw⟩ := EventLoop.startIoEvent_bits ev (creatIoEvent ioFd ioEvents) fd READ (fun h => by cases h)
  have hw' : (startIoEvent ev (creatIoEvent ioFd ioEvents) fd READ).w = false := hw
  exact ⟨ha, hf, hr, by rw [hw']; simp⟩

theorem maskOk_addReply (ev : Libev) {c : Conn} {io : IOWatcher} (h : MaskOk c io) (reply : Slice) :
    MaskOk { c with tcp := { c.tcp with replyList := c.tcp.replyList ++ [reply] } }
      (startIoEvent ev io c.tcp.fd WRITE) := by
  obtain ⟨ha, hf, hr, hw⟩ := EventLoop.startIoEvent_bits ev io c.tcp.fd WRITE (fun _ => h.fd)
  rw [h.active, h.read] at hr
  have hw' : (startIoEvent ev io c.tcp.fd WRITE).w = true := by
    rw [hw]
    exact Bool.or_true _
  refine ⟨ha, hf, hr, ?_⟩
  rw [hw']
  exact ⟨fun _ => by simp, fun _ => rfl⟩

/-- The stop at the end of a drained `_write_reply`: `READ` is armed, so the watcher goes on. -/
theorem maskOk_drained (ev : Libev) {c : Conn} {io : IOWatcher} (h : MaskOk c io) {tcp : TcpConnection}
    (hfd : tcp.fd = c.tcp.fd) (hl : tcp.replyList = []) :
    MaskOk { c with tcp := tcp } (stopIoEvent ev io tcp.fd WRITE) := by
  have hm0 : WRITE.getLsbD 0 = false := by decide
  have hm1 : WRITE.getLsbD 1 = true := by decide
  have hno : ∀ x : IOWatcher, x.w = false → (x.w = true ↔ tcp.replyList ≠ []) := by
    intro x hx
    rw [hx, hl]
    simp
  rcases EventLoop.stopIoEvent_bits ev io tcp.fd WRITE with ⟨-, h1, he⟩ | ⟨-, h0, -⟩ | ⟨-, -, ha, hf, hr, hw⟩
  · rw [he]
    rw [hm1, Bool.and_true] at h1
    exact ⟨h.active, by rw [h.fd]; exact hfd.symm, h.read, hno io h1⟩
  · rw [h.read, hm0] at h0
    cases h0
  · rw [h.read, hm0] at hr
    rw [hm1, Bool.not_true, Bool.and_false] at hw
    exact ⟨ha, hf, hr, hno _ hw⟩

/-! ## The two halves of the IO callback -/

/-- One turn of the write loop. -/
theorem writeTurn (s : WriteReply.St) (now : Nat) (r : WriteReply.SysWrite) :
    (WriteReply.iterate s now r).conn.fd = s.conn.fd ∧
    ((s.conn.replyList = [] ∧ (WriteReply.iterate s now r).conn.replyList = [] ∧
        (WriteReply.iterate s now r).watching = false ∧ (WriteReply.iterate s now r).phase = .idle) ∨
      (s.conn.replyList ≠ [] ∧ (WriteReply.iterate s now r).watching = s.watching ∧
        ((WriteReply.iterate s now r).phase = s.phase ∨
          (WriteReply.iterate s now r).phase = .idle ∧ (WriteReply.iterate s now r).conn.replyList ≠ []))) := by
  unfold WriteReply.iterate
  cases hl : s.conn.replyList with
  | nil => exact ⟨rfl, .inl ⟨rfl, hl, rfl, rfl⟩⟩
  | cons reply rest =>
    simp only
    split
    · exact ⟨rfl, .inr ⟨by simp, rfl, .inr ⟨rfl, by simp [hl]⟩⟩⟩
    · split
      · exact ⟨rfl, .inr ⟨by simp, rfl, .inl rfl⟩⟩
      · split
        · exact ⟨rfl, .inr ⟨by simp, rfl, .inl rfl⟩⟩
        · exact ⟨rfl, .inr ⟨by simp, rfl, .inl rfl⟩⟩

/-- **The write loop, whatever the socket answers**: it goes on, it was left with the list drained and the stop made,
or it was left by a failed write with replies still queued. -/
structure WriteOk (c : TcpConnection) (t : WriteReply.St) : Prop where
  fd : t.conn.fd = c.fd
  left : (t.phase = .writing ∧ t.watching = true ∧ (c.replyList = [] → t.conn.replyList = [])) ∨
    (t.phase = .idle ∧ t.watching = false ∧ t.conn.replyList = []) ∨
    (t.phase = .idle ∧ t.watching = true ∧ t.conn.replyList ≠ [] ∧ c.replyList ≠ [])

theorem writeLoop_ok (a : Addr) (c : TcpConnection) (now : Nat) (σ : Nat → WriteReply.SysWrite) :
    ∀ n, WriteOk c (WriteReply.loop ⟨a, c, true, .writing, [], [], []⟩ now σ n)
  | 0 => ⟨rfl, .inl ⟨rfl, rfl, fun h => h⟩⟩
  | n + 1 => by
    obtain ⟨hfd, hleft⟩ := writeLoop_ok a c now σ n
    generalize ht : WriteReply.loop ⟨a, c, true, .writing, [], [], []⟩ now σ n = t at hfd hleft
    have hnext : WriteReply.loop ⟨a, c, true, .writing, [], [], []⟩ now σ (n + 1) =
        if t.phase = .writing then WriteReply.iterate t now (σ n) else t := by
      rw [WriteReply.loop, ht]
    rw [hnext]
    rcases hleft with ⟨hp, hw, hl⟩ | hidle | hidle
    · rw [if_pos hp]
      obtain ⟨h1, h2⟩ := writeTurn t now (σ n)
      refine ⟨h1.trans hfd, ?_⟩
      rcases h2 with ⟨-, h3, h4, h5⟩ | ⟨hne, h3, h4 | ⟨h4, h5⟩⟩
      · exact .inr (.inl ⟨h5, h4, h3⟩)
      · exact .inl ⟨h4.trans hp, h3.trans hw, fun hc => absurd (hl hc) hne⟩
      · exact .inr (.inr ⟨h4, h3.trans hw, h5, fun hc => hne (hl hc)⟩)
    · rw [if_neg (by rw [hidle.1]; decide)]
      exact ⟨hfd, .inr (.inl hidle)⟩
    · rw [if_neg (by rw [hidle.1]; decide)]
      exact ⟨hfd, .inr (.inr hidle)⟩

/-- `process_query_buffer` leaves the descriptor and the replies alone. -/
theorem processQueryBuffer_frame (outcome : Nat → Int) : ∀ (fuel : Nat) (q q' : Query.St),
    Query.processQueryBuffer outcome fuel q = some q' →
      q'.conn.fd = q.conn.fd ∧ q'.conn.replyList = q.conn.replyList
  | 0, q, q', h => by
    rw [Query.processQueryBuffer] at h
    split at h
    · cases h
    · cases h
      exact ⟨rfl, rfl⟩
  | fuel + 1, q, q', h => by
    rw [Query.processQueryBuffer] at h
    split at h
    · obtain ⟨h1, h2⟩ := processQueryBuffer_frame outcome fuel _ q' h
      have hit : (Query.iterate outcome q).conn.fd = q.conn.fd ∧
          (Query.iterate outcome q).conn.replyList = q.conn.replyList := by
        unfold Query.iterate
        split
        · split
          · split <;> exact ⟨rfl, rfl⟩
          · split <;> exact ⟨rfl, rfl⟩
        · exact ⟨rfl, rfl⟩
      exact ⟨h1.trans hit.1, h2.trans hit.2⟩
    · cases h
      exact ⟨rfl, rfl⟩

theorem readQuery_frame {rd : ReadAct} {c : TcpConnection} {q : Query.St}
    (h : Query.readQuery rd.outcome rd.fuel ⟨c, .idle, []⟩ rd.now rd.r = some q) :
    q.conn.fd = c.fd ∧ q.conn.replyList = c.replyList := by
  unfold Query.readQuery at h
  rw [if_pos rfl] at h
  obtain ⟨h1, h2⟩ := processQueryBuffer_frame rd.outcome rd.fuel _ q h
  have hread : (Query.readStep ⟨c, .idle, []⟩ rd.now rd.r).conn.fd = c.fd ∧
      (Query.readStep ⟨c, .idle, []⟩ rd.now rd.r).conn.replyList = c.replyList := by
    unfold Query.readStep
    split <;> exact ⟨rfl, rfl⟩
  exact ⟨h1.trans hread.1, h2.trans hread.2⟩

section Callbacks
variable {s s' : St ns} {ev : Libev} {timeout : Nat}

/-- A non-null entry of a table is a live connection of that worker. -/
theorem Inv.at_slot (h : Inv s) {i : Fin ns} {k : Nat} {a : Addr} (hk : (s.conns i)[k]? = some (some a)) :
    ∃ c io, s.heap a = some c ∧ c.tcp.fd = k ∧ ConnOk s i a c io := by
  obtain ⟨c, io, hc, hfd, hent⟩ := h.table i k a hk
  obtain ⟨j, io', hj⟩ := h.live a c hc
  rw [hj.ioWatcher] at hent
  cases hent
  exact ⟨c, io, hc, hfd, hj⟩

/-- A timer points to a live connection of the worker whose loop it runs in. -/
theorem Inv.at_timer (h : Inv s) {t : Addr} {e : TimerEntry ns} (ht : s.timers t = some e) :
    ∃ c io, s.heap e.conn = some c ∧ c.timerWatcher = t ∧ ConnOk s e.loop e.conn c io := by
  obtain ⟨c, hc, hct⟩ := h.timers t e ht
  obtain ⟨i, io, hok⟩ := h.live e.conn c hc
  have hent := hok.timer
  rw [hct, ht] at hent
  have hloop : e.loop = i := congrArg TimerEntry.loop (Option.some.inj hent)
  exact ⟨c, io, hc, hct, hloop ▸ hok⟩

theorem inv_readQuery (h : Inv s) {i : Fin ns} {fd : Int} {rd : ReadAct} (hs : readQuery s i fd rd = some s') :
    Inv s' := by
  unfold readQuery at hs
  cases hsl : slot (s.conns i) fd with
  | none =>
    rw [hsl] at hs
    cases hs
    exact h
  | some a =>
    obtain ⟨c, io, hc, -, hok⟩ := h.at_slot (slot_eq_some.1 hsl).2
    simp only [hsl, hc] at hs
    split at hs
    · cases hs
    · rename_i q hq
      obtain ⟨hfd, hl⟩ := readQuery_frame hq
      split at hs
      · cases hs
        exact inv_close h hc hok
      · cases hs
        exact inv_putTcp h hc hok hfd (by rw [hl])

theorem writeTarget_eq_some {conns : List (Option Addr)} {fd : Int} {a : Addr}
    (h : WriteReply.writeTarget conns fd = some a) : conns[fd.toNat]? = some (some a) := by
  unfold WriteReply.writeTarget at h
  split at h
  · cases h
  · rename_i hfd
    have hlt : fd.toNat < conns.length := by omega
    rw [List.getD_eq_getElem?_getD, List.getElem?_eq_getElem hlt, Option.getD_some] at h
    rw [List.getElem?_eq_getElem hlt, h]

theorem inv_writeReply (h : Inv s) {i : Fin ns} {fd : Int} {wr : WriteAct} (hs : writeReply ev s i fd wr = some s') :
    Inv s' := by
  unfold writeReply at hs
  cases hsl : WriteReply.writeTarget (s.conns i) fd with
  | none =>
    rw [hsl] at hs
    cases hs
    exact h
  | some a =>
    obtain ⟨c, io, hc, -, hok⟩ := h.at_slot (writeTarget_eq_some hsl)
    simp only [hsl, hc] at hs
    have hloop : WriteOk c.tcp (writeLoop a c.tcp wr) := writeLoop_ok a c.tcp wr.now wr.answers wr.turns
    generalize writeLoop a c.tcp wr = t at hs hloop
    obtain ⟨hfd, ⟨hp, -, -⟩ | ⟨hp, hw, hl⟩ | ⟨hp, hw, hl, hl₀⟩⟩ := hloop
    · rw [if_neg (by rw [hp]; decide)] at hs
      cases hs
    · rw [if_pos hp, if_neg (by rw [hw]; decide), hok.ioWatcher] at hs
      cases hs
      exact inv_put h hc hok hfd (maskOk_drained ev hok.mask hfd hl)
    · rw [if_pos hp, if_pos hw] at hs
      cases hs
      exact inv_putTcp h hc hok hfd ⟨fun he => absurd he hl, fun he => absurd he hl₀⟩

theorem inv_connIoCb (h : Inv s) {e : IoEntry ns} {events : BitVec 32} {rd : ReadAct} {wr : WriteAct}
    (hs : connIoCb ev s e events rd wr = some s') : Inv s' := by
  obtain ⟨s₁, h1, h2⟩ := Option.bind_eq_some_iff.1 hs
  have hmid : Inv s₁ := by
    split at h1
    · exact inv_readQuery h h1
    · cases h1
      exact h
  split at h2
  · cases h2
    exact hmid
  · split at h2
    · exact inv_writeReply hmid h2
    · cases h2
      exact hmid

theorem inv_connTimerCb (h : Inv s) {t : Addr} {e : TimerEntry ns} (ht : s.timers t = some e) (now : Nat) :
    Inv (connTimerCb timeout s e now) := by
  obtain ⟨c, io, hc, -, hok⟩ := h.at_timer ht
  unfold connTimerCb
  simp only [hc]
  split
  · exact inv_close h hc hok
  · exact h

theorem inv_answerStep (h : Inv s) (i : Fin ns) (msg : RtcMsg (Fin ns)) (reply : Option Slice) :
    Inv (answerStep ev s i msg reply) := by
  unfold answerStep
  cases ht : Offer.replyTarget (s.conns i) msg with
  | none => exact h
  | some a =>
    obtain ⟨c, io, hc, -, hok⟩ := h.at_slot (slot_eq_some.1 (ConnReuse.replyTarget_eq_some ht).2).2
    simp only [hc]
    cases reply with
    | none => exact h
    | some reply =>
      simp only [hok.ioWatcher]
      exact inv_put h hc hok rfl (maskOk_addReply ev hok.mask reply)

theorem inv_newConnStep (h : Inv s) {i : Fin ns} {a w t : Addr} (ha : s.heap a = none) (hw : s.ios w = none)
    (ht : s.timers t = none) (ioFd : Int) (ioEvents : BitVec 32) (now : Nat) :
    Inv (newConnStep ev s i a w t ioFd ioEvents now) := by
  unfold newConnStep
  cases hq : s.connQueue i with
  | nil => exact h
  | cons fd rest =>
    obtain ⟨hpos, hmax, -⟩ := h.queued i fd (by rw [hq]; exact List.mem_cons_self)
    obtain ⟨table, htab, -⟩ := setConn_table (s.conns i) fd.toNat (by omega) (.inr (by omega)) a
    simp only
    rw [if_neg (by omega), htab]
    exact inv_new h hq ha hw ht htab rfl (maskOk_new ev fd ioFd ioEvents now w t)

/-- **Every callback keeps the invariant.** -/
theorem inv_step (h : Inv s) {l : Label ns} (hs : step ev timeout s l = some s') : Inv s' := by
  unfold step at hs
  split at hs
  · cases hs
  · cases l with
    | accept fd =>
      simp only at hs
      split at hs
      · rename_i hok
        cases hs
        exact inv_accept h hok.1 hok.2.1 hok.2.2
      · cases hs
    | newConn i a w t ioFd ioEvents now =>
      simp only [Option.isNone_iff_eq_none] at hs
      split at hs
      · rename_i hok
        cases hs
        exact inv_newConnStep h hok.1 hok.2.1 hok.2.2 ioFd ioEvents now
      · cases hs
    | io w events rd wr =>
      simp only at hs
      split at hs
      · cases hs
      · split at hs
        · exact inv_connIoCb h hs
        · cases hs
    | timer t now =>
      simp only at hs
      split at hs
      · cases hs
      · rename_i e he
        cases hs
        exact inv_connTimerCb h he now
    | reply i msg reply =>
      cases hs
      exact inv_answerStep h i msg reply

end Callbacks

theorem inv_init : Inv (init : St ns) := by
  refine ⟨?_, ?_, ?_, ?_, ?_, ?_, ?_, ?_, ?_, .inl rfl⟩
  · intro a c hc
    cases hc
  · intro i k a hk
    simp [init] at hk
  · intro a b c d hc
    cases hc
  · intro w e he
    cases he
  · intro t e he
    cases he
  · intro i fd hfd
    cases hfd
  · intro i
    exact List.nodup_nil
  · intro i j fd hfd
    cases hfd
  · exact (Nat.eq_zero_or_pos ns).symm

theorem reachable_inv {ev : Libev} {timeout : Nat} {s : St ns} (h : Lts.Reachable (step ev timeout) init s) : Inv s :=
  h.invariant inv_init (fun _ _ _ hi hs => inv_step hi hs)

/-! ## The table laws -/

section Laws
variable {s s' : St ns} {ev : Libev} {timeout : Nat}

theorem Inv.not_crashed (h : Inv s) (i : Fin ns) : s.crashed = false := by
  rcases h.sound with h1 | h1
  · exact h1
  · exact absurd i.isLt (by omega)

theorem Inv.unique_slot (h : Inv s) {a : Addr} {c : Conn} (hc : s.heap a = some c) :
    ∃! p : Fin ns × Nat, (s.conns p.1)[p.2]? = some (some a) := by
  obtain ⟨i, io, hok⟩ := h.live a c hc
  refine ⟨(i, c.tcp.fd.toNat), hok.slot, ?_⟩
  rintro ⟨j, k⟩ hk
  obtain ⟨d, io', hd, hfd, hent⟩ := h.table j k a hk
  rw [hc] at hd
  cases hd
  rw [hok.ioWatcher] at hent
  cases hent
  rw [hfd]
  rfl

/-- `new_conn` fills a free slot of its own table and moves nothing. -/
theorem newConnStep_conns (h : Inv s) (i : Fin ns) (a w t : Addr) (ioFd : Int) (ioEvents : BitVec 32) (now : Nat)
    (j : Fin ns) {k : Nat} (hk : k < (s.conns j).length) :
    ((newConnStep ev s i a w t ioFd ioEvents now).conns j)[k]? = (s.conns j)[k]? ∨
      ((s.conns j)[k]? = some none ∧
        ((newConnStep ev s i a w t ioFd ioEvents now).conns j)[k]? = some (some a)) := by
  unfold newConnStep
  cases hq : s.connQueue i with
  | nil => exact .inl rfl
  | cons fd rest =>
    obtain ⟨hpos, hmax, -, hnone⟩ := h.queued i fd (by rw [hq]; exact List.mem_cons_self)
    obtain ⟨table, htab, hself, hkeep, -⟩ := setConn_table (s.conns i) fd.toNat (by omega) (.inr (by omega)) a
    simp only
    rw [if_neg (by omega), htab]
    by_cases hj : j = i
    · subst hj
      simp only [Function.update_self]
      by_cases hkfd : k = fd.toNat
      · refine .inr ⟨?_, by rw [hkfd]; exact hself⟩
        cases hent : (s.conns j)[k]? with
        | none => exact absurd (List.getElem?_eq_none_iff.1 hent) (by omega)
        | some x =>
          cases x with
          | none => rfl
          | some b =>
            -- a live connection would have the descriptor just taken from the queue
            obtain ⟨c, -, hc, hfd, -⟩ := h.table j k b hent
            exact absurd (by rw [hfd]; omega) (hnone b c hc)
      · exact .inl (hkeep k hkfd hk)
    · exact .inl (by simp only [Function.update_of_ne hj])

theorem Inv.io_live (h : Inv s) {w : Addr} {e : IoEntry ns} (he : s.ios w = some e) :
    ∃ a c, (s.conns e.loop)[e.io.fd.toNat]? = some (some a) ∧ s.heap a = some c ∧ c.ioWatcher = w ∧
      ConnOk s e.loop a c e.io := by
  obtain ⟨a, c, hc, hw⟩ := h.ios w e he
  obtain ⟨i, io, hok⟩ := h.live a c hc
  have hent := hok.ioWatcher
  rw [hw, he] at hent
  cases hent
  exact ⟨a, c, by rw [hok.mask.fd]; exact hok.slot, hc, hw, hok⟩

/-- **A read that closes the connection leaves the write part nothing to do.** -/
theorem connIoCb_closed (h : Inv s) {a : Addr} {c : Conn} {e : IoEntry ns} (hc : s.heap a = some c)
    (hok : ConnOk s e.loop a c e.io) {events : BitVec 32} (hr : events &&& READ ≠ 0) {rd : ReadAct}
    (hread : Query.sockReadData rd.r = none) (wr : WriteAct) :
    connIoCb ev s e events rd wr = some (closeConn s e.loop a c) ∧ (closeConn s e.loop a c).heap a = none := by
  have hfd : e.io.fd = c.tcp.fd := hok.mask.fd
  have hslot : slot (s.conns e.loop) e.io.fd = some a :=
    slot_eq_some.2 ⟨by rw [hfd]; have := hok.pos; omega, by rw [hfd]; exact hok.slot⟩
  have hquery : ∃ q, Query.readQuery rd.outcome rd.fuel ⟨c.tcp, .idle, []⟩ rd.now rd.r = some q ∧ q.phase = .closed := by
    unfold Query.readQuery
    rw [if_pos rfl]
    have hstep : (Query.readStep ⟨c.tcp, .idle, []⟩ rd.now rd.r).phase = .closed := by
      unfold Query.readStep
      rw [hread]
    rw [Query.processQueryBuffer_of_ne (by rw [hstep]; decide)]
    exact ⟨_, rfl, hstep⟩
  obtain ⟨q, hq, hphase⟩ := hquery
  have hgone : WriteReply.writeTarget ((closeConn s e.loop a c).conns e.loop) e.io.fd = none := by
    unfold closeConn WriteReply.writeTarget
    rw [if_neg hok.closable]
    simp only [Function.update_self]
    split
    · rfl
    · rw [hfd, List.getD_eq_getElem?_getD, List.getElem?_set_self hok.inTable]
      rfl
  have hsound : (closeConn s e.loop a c).crashed = false := (inv_close h hc hok).not_crashed e.loop
  refine ⟨?_, ?_⟩
  · unfold connIoCb
    rw [if_pos hr]
    simp only [readQuery, hslot, hc, hq, hphase, if_true, Option.bind_some, hsound, Bool.false_eq_true, if_false]
    split
    · simp only [writeReply, hgone]
    · rfl
  · unfold closeConn
    rw [if_neg hok.closable]
    simp only [Function.update_self]

end Laws

/-- **The connection table invariant.**  In every state the workers reach, nothing has crashed (with a worker there to
dispatch to), every non-null entry `i` of a table is a live connection with descriptor `i`, which is open; every live
connection is in one table at one index, and no descriptor is in two tables; `new_conn` only fills a free slot; and
every watcher and timer belongs to a live connection in its worker's table, so that a read that closes the connection
ends the callback. -/
theorem conn_table_invariant (ev : Libev) (timeout : Nat) (s : St ns) (h : Lts.Reachable (step ev timeout) init s) :
    (s.crashed = false ∨ ns = 0) ∧
    (∀ i (k : Nat) a, (s.conns i)[k]? = some (some a) → ∃ c, s.heap a = some c ∧ c.tcp.fd = k ∧ s.opened k = true) ∧
    (∀ a c, s.heap a = some c → ∃! p : Fin ns × Nat, (s.conns p.1)[p.2]? = some (some a)) ∧
    (∀ i j (k : Nat) a b, (s.conns i)[k]? = some (some a) → (s.conns j)[k]? = some (some b) → i = j) ∧
    (∀ i a w t ioFd ioEvents now s', step ev timeout s (.newConn i a w t ioFd ioEvents now) = some s' →
      ∀ j (k : Nat), k < (s.conns j).length → (s'.conns j)[k]? = (s.conns j)[k]? ∨
        ((s.conns j)[k]? = some none ∧ (s'.conns j)[k]? = some (some a))) ∧
    (∀ w e, s.ios w = some e → ∃ a c, (s.conns e.loop)[e.io.fd.toNat]? = some (some a) ∧ s.heap a = some c ∧
      c.ioWatcher = w ∧ ∀ events rd wr, events &&& READ ≠ 0 → Query.sockReadData rd.r = none →
        connIoCb ev s e events rd wr = some (closeConn s e.loop a c) ∧ (closeConn s e.loop a c).heap a = none) ∧
    (∀ t e, s.timers t = some e → ∃ c, s.heap e.conn = some c ∧ c.timerWatcher = t ∧
      (s.conns e.loop)[c.tcp.fd.toNat]? = some (some e.conn)) := by
  have hinv := reachable_inv h
  refine ⟨hinv.sound, ?_, fun a c hc => hinv.unique_slot hc, ?_, ?_, ?_, ?_⟩
  · intro i k a hk
    obtain ⟨c, io, hc, hfd, hok⟩ := hinv.at_slot hk
    exact ⟨c, hc, hfd, by rw [← hfd]; exact hok.opened⟩
  · intro i j k a b ha hb
    obtain ⟨c, io, hc, hfd, hok⟩ := hinv.at_slot ha
    obtain ⟨d, io', hd, hfd', hok'⟩ := hinv.at_slot hb
    have hab := hinv.fds a b c d hc hd (hfd.trans hfd'.symm)
    subst hab
    rw [hc] at hd
    cases hd
    have hent := hok.ioWatcher
    rw [hok'.ioWatcher] at hent
    cases hent
    rfl
  · intro i a w t ioFd ioEvents now s' hs j k hk
    unfold step at hs
    rw [if_neg (by rw [hinv.not_crashed i]; decide)] at hs
    simp only at hs
    split at hs
    · cases hs
      exact newConnStep_conns hinv i a w t ioFd ioEvents now j hk
    · cases hs
  · intro w e he
    obtain ⟨a, c, hslot, hc, hw, hok⟩ := hinv.io_live he
    exact ⟨a, c, hslot, hc, hw, fun events rd wr hr hread => connIoCb_closed hinv hc hok hr hread wr⟩
  · intro t e he
    obtain ⟨c, io, hc, hct, hok⟩ := hinv.at_timer he
    exact ⟨c, hc, hct, hok.slot⟩

def worker0 : Fin 1 := ⟨0, Nat.zero_lt_one⟩

/-- A read that finds nothing. -/
def noRead : ReadAct := ⟨8, .err true, fun _ => 0, 2⟩

/-- Two bytes go out, then the write fails. -/
def twoThenError : WriteAct := ⟨8, fun n => if n = 0 then .wrote 2 else .err false, 2⟩

/-- A client on descriptor 5 gets a reply, of which two bytes are sent before a write fails. -/
def halfSent : List (Label 1) :=
  [.accept 5, .newConn worker0 3 4 6 0 0x80 7,
    .reply worker0 { cmdno := 1, conn := some 3, fd := 5 } (some ⟨fun _ => 9, 3⟩), .io 4 (READ ||| WRITE) noRead twoThenError]

theorem conn_table_invariant_halfSent : ∃ s : St 1, Lts.run (step EventLoop.libev 1000) init halfSent = some s ∧
    s.conns worker0 = [none, none, none, none, none, some 3, none, none, none, none] ∧ s.opened 5 = true ∧
    ∃! p : Fin 1 × Nat, (s.conns p.1)[p.2]? = some (some 3) := by
  have hsome : (Lts.run (step EventLoop.libev 1000) (init : St 1) halfSent).isSome = true := by decide
  obtain ⟨s, hs⟩ := Option.isSome_iff_exists.1 hsome
  have hlook : (Lts.run (step EventLoop.libev 1000) (init : St 1) halfSent).map
      (fun s => (s.conns worker0, s.opened 5, (s.heap 3).isSome)) =
        some ([none, none, none, none, none, some 3, none, none, none, none], true, true) := by decide
  rw [hs, Option.map_some, Option.some.injEq, Prod.mk.injEq, Prod.mk.injEq] at hlook
  obtain ⟨c, hc⟩ := Option.isSome_iff_exists.1 hlook.2.2
  have hall := conn_table_invariant EventLoop.libev 1000 s (Lts.Reachable.of_run hs)
  exact ⟨s, hs, hlook.1, hlook.2.1, hall.2.2.1 3 c hc⟩

/-- **Write interest matches pending replies**: between any two callbacks every live connection's watcher is active with
`READ` armed, and has `WRITE` armed exactly while replies are queued. -/
theorem write_interest_matches_replies (ev : Libev) (timeout : Nat) (s : St ns)
    (h : Lts.Reachable (step ev timeout) init s) (a : Addr) (c : Conn) (hc : s.heap a = some c) :
    ∃ e, s.ios c.ioWatcher = some e ∧ e.io.active = true ∧ IoEvent.read ∈ armed e.io c.tcp.fd ∧
      (IoEvent.write ∈ armed e.io c.tcp.fd ↔ c.tcp.replyList ≠ []) := by
  obtain ⟨i, io, hok⟩ := (reachable_inv h).live a c hc
  have hm := hok.mask
  refine ⟨⟨i, io⟩, hok.ioWatcher, hm.active, ⟨hm.active, hm.fd, hm.read⟩, ?_⟩
  rw [← hm.write]
  exact ⟨fun hw => hw.2.2, fun hw => ⟨hm.active, hm.fd, hw⟩⟩

theorem write_interest_matches_replies_halfSent : ∃ (s : St 1) (c : Conn) (e : IoEntry 1),
    Lts.run (step EventLoop.libev 1000) init halfSent = some s ∧ s.heap 3 = some c ∧ c.tcp.curRespPos = 2 ∧
      c.tcp.replyList.length = 1 ∧ s.ios c.ioWatcher = some e ∧ IoEvent.write ∈ armed e.io c.tcp.fd := by
  have hsome : (Lts.run (step EventLoop.libev 1000) (init : St 1) halfSent).isSome = true := by decide
  obtain ⟨s, hs⟩ := Option.isSome_iff_exists.1 hsome
  have hlook : (Lts.run (step EventLoop.libev 1000) (init : St 1) halfSent).map
      (fun s => (s.heap 3).map (fun c => (c.tcp.curRespPos, c.tcp.replyList.length))) = some (some (2, 1)) := by decide
  rw [hs, Option.map_some, Option.some.injEq] at hlook
  obtain ⟨c, hc, hpos⟩ := Option.map_eq_some_iff.1 hlook
  rw [Prod.mk.injEq] at hpos
  obtain ⟨e, he, -, -, hw⟩ := write_interest_matches_replies EventLoop.libev 1000 s (Lts.Reachable.of_run hs) 3 c hc
  have hne : c.tcp.replyList ≠ [] := by
    intro h
    rw [h] at hpos
    cases hpos.2
  exact ⟨s, c, e, hs, hc, hpos.1, hpos.2, he, hw.2 hne⟩

end ConnTable
end Xrtc
