import Xrtc.ConnTableRun
import Xrtc.IdleTimeout
/-!
# Descriptors — nothing the signaling workers open is lost

What the connection tables are for, seen from a descriptor: it is closed, or queued for one worker, or one connection's
own, and it goes round in this order (`Pass`).  Every callback is one pass at most (`step_pass`), so every open
descriptor has a holder, and one only (`Owned`).  The watchers are the connections' own two each.  A round of timer
ticks then closes the connections that have timed out and leaves the others as they are, whatever the clock says.
-/
namespace Xrtc
namespace ConnTable

open EventLoop (Libev IOWatcher)
open ConnReuse (slot slot_eq_some)
open IdleTimeout (timedOut connTimerCb_eq)

variable {ns : Nat}

/-! ## The life of a descriptor -/

/-- Who has a descriptor: the queue of a worker or a connection. -/
inductive Holder (ns : Nat) where
  | queue (i : Fin ns)
  | conn (a : Addr)
  deriving DecidableEq

/-- Descriptors only: the open ones, the queued ones, and each live connection's. -/
structure View (ns : Nat) where
  opened : Int → Bool
  queue : Fin ns → List Int
  fdOf : Addr → Option Int

def View.Holds (v : View ns) : Holder ns → Int → Prop
  | .queue i, fd => fd ∈ v.queue i
  | .conn a, fd => v.fdOf a = some fd

/-- What can happen to one descriptor: `accept` opens and queues it, `new_conn` makes it a connection's, `close_conn_`
closes it. -/
inductive Pass (v : View ns) : View ns → Prop
  | stay : Pass v v
  | accept {i : Fin ns} {fd : Int} (hfd : v.opened fd = false) : Pass v { v with
      opened := Function.update v.opened fd true, queue := Function.update v.queue i (v.queue i ++ [fd]) }
  | adopt {i : Fin ns} {a : Addr} {fd : Int} {rest : List Int} (hq : v.queue i = fd :: rest) (ha : v.fdOf a = none) :
      Pass v { v with queue := Function.update v.queue i rest, fdOf := Function.update v.fdOf a (some fd) }
  | close {a : Addr} {fd : Int} (ha : v.fdOf a = some fd) : Pass v { v with
      opened := Function.update v.opened fd false, fdOf := Function.update v.fdOf a none }

/-- The open descriptors are the held ones, and each has one holder. -/
structure Owned (v : View ns) : Prop where
  held : ∀ fd, v.opened fd = true ↔ ∃ h, v.Holds h fd
  one : ∀ h h' fd, v.Holds h fd → v.Holds h' fd → h = h'
  nodup : ∀ i, (v.queue i).Nodup

section Life
variable {v v' : View ns}

theorem Owned.not_open (h : Owned v) {fd : Int} (hfd : v.opened fd = false) (x : Holder ns) : ¬v.Holds x fd := by
  intro hx
  have hopen := (h.held fd).2 ⟨x, hx⟩
  rw [hfd] at hopen
  cases hopen

/-- `accept`: the descriptor was nobody's. -/
theorem Owned.accept (h : Owned v) {i : Fin ns} {fd : Int} (hfd : v.opened fd = false) : Owned { v with
    opened := Function.update v.opened fd true, queue := Function.update v.queue i (v.queue i ++ [fd]) } := by
  have hholds : ∀ x d, View.Holds { v with
      opened := Function.update v.opened fd true, queue := Function.update v.queue i (v.queue i ++ [fd]) } x d ↔
      v.Holds x d ∨ (x = .queue i ∧ d = fd) := by
    intro x d
    cases x with
    | conn a => simp [View.Holds]
    | queue j =>
      by_cases hj : j = i
      · subst hj
        simp [View.Holds]
      · simp [View.Holds, hj]
  refine ⟨fun d => ?_, fun x x' d hx hx' => ?_, fun j => ?_⟩
  · by_cases hd : d = fd
    · subst hd
      simp only [Function.update_self, true_iff]
      exact ⟨.queue i, (hholds _ _).2 (.inr ⟨rfl, rfl⟩)⟩
    · simp only [Function.update_of_ne hd]
      rw [h.held d]
      exact exists_congr (fun x => by rw [hholds, or_iff_left (fun hc => hd hc.2)])
  · rcases (hholds x d).1 hx with hx | ⟨rfl, rfl⟩ <;> rcases (hholds x' d).1 hx' with hx' | ⟨rfl, he⟩
    · exact h.one x x' d hx hx'
    · exact absurd (he ▸ hx) (h.not_open hfd x)
    · exact absurd hx' (h.not_open hfd x')
    · rfl
  · by_cases hj : j = i
    · subst hj
      simp only [Function.update_self, List.nodup_append, List.nodup_singleton, List.mem_singleton, true_and]
      refine ⟨h.nodup j, fun x hx y hy => ?_⟩
      rintro rfl
      exact h.not_open hfd (.queue j) (hy ▸ hx)
    · simp only [Function.update_of_ne hj]
      exact h.nodup j

/-- `new_conn`: the first of the queue goes to a new connection. -/
theorem Owned.adopt (h : Owned v) {i : Fin ns} {a : Addr} {fd : Int} {rest : List Int} (hq : v.queue i = fd :: rest)
    (ha : v.fdOf a = none) :
    Owned { v with queue := Function.update v.queue i rest, fdOf := Function.update v.fdOf a (some fd) } := by
  have hnd := h.nodup i
  rw [hq, List.nodup_cons] at hnd
  have hold : v.Holds (.queue i) fd := by
    simp [View.Holds, hq]
  have hholds : ∀ x d, View.Holds { v with
      queue := Function.update v.queue i rest, fdOf := Function.update v.fdOf a (some fd) } x d ↔
      (d ≠ fd ∧ v.Holds x d) ∨ (x = .conn a ∧ d = fd) := by
    intro x d
    cases x with
    | queue j =>
      by_cases hj : j = i
      · subst hj
        simp only [View.Holds, Function.update_self, hq, List.mem_cons, reduceCtorEq, false_and, or_false]
        constructor
        · exact fun hd => ⟨fun he => hnd.1 (he ▸ hd), .inr hd⟩
        · exact fun hd => hd.2.resolve_left hd.1
      · simp only [View.Holds, Function.update_of_ne hj, reduceCtorEq, false_and, or_false]
        constructor
        · intro hd
          refine ⟨?_, hd⟩
          rintro rfl
          exact hj (Holder.queue.inj (h.one (.queue j) (.queue i) d hd hold))
        · exact fun hd => hd.2
    | conn b =>
      by_cases hb : b = a
      · subst hb
        simp only [View.Holds, Function.update_self, ha, Option.some.injEq, reduceCtorEq, and_false, false_or, true_and]
        exact eq_comm
      · simp only [View.Holds, Function.update_of_ne hb, Holder.conn.injEq, hb, false_and, or_false]
        constructor
        · intro hd
          refine ⟨?_, hd⟩
          rintro rfl
          exact absurd (h.one (.conn b) (.queue i) d hd hold) (by simp)
        · exact fun hd => hd.2
  refine ⟨fun d => ?_, fun x x' d hx hx' => ?_, fun j => ?_⟩
  · rw [h.held d]
    by_cases hd : d = fd
    · subst hd
      exact ⟨fun _ => ⟨.conn a, (hholds _ _).2 (.inr ⟨rfl, rfl⟩)⟩, fun _ => ⟨.queue i, hold⟩⟩
    · exact exists_congr (fun x => by
        rw [hholds, or_iff_left (fun hc : x = .conn a ∧ d = fd => hd hc.2), and_iff_right hd])
  · rcases (hholds x d).1 hx with ⟨hd, hx⟩ | ⟨rfl, rfl⟩ <;> rcases (hholds x' d).1 hx' with ⟨hd', hx'⟩ | ⟨rfl, hd'⟩
    · exact h.one x x' d hx hx'
    · exact absurd hd' hd
    · exact absurd rfl hd'
    · rfl
  · by_cases hj : j = i
    · subst hj
      simp only [Function.update_self]
      exact hnd.2
    · simp only [Function.update_of_ne hj]
      exact h.nodup j

/-- `close_conn_`: the connection was the only holder. -/
theorem Owned.close (h : Owned v) {a : Addr} {fd : Int} (ha : v.fdOf a = some fd) : Owned { v with
    opened := Function.update v.opened fd false, fdOf := Function.update v.fdOf a none } := by
  have hholds : ∀ x d, View.Holds { v with
      opened := Function.update v.opened fd false, fdOf := Function.update v.fdOf a none } x d ↔
      d ≠ fd ∧ v.Holds x d := by
    intro x d
    have hne : x ≠ .conn a → v.Holds x d → d ≠ fd := by
      rintro hx hd rfl
      exact hx (h.one x (.conn a) d hd ha)
    cases x with
    | queue j => exact ⟨fun hd => ⟨hne (by simp) hd, hd⟩, fun hd => hd.2⟩
    | conn b =>
      by_cases hb : b = a
      · subst hb
        simp only [View.Holds, Function.update_self, ha, reduceCtorEq, Option.some.injEq, false_iff, not_and]
        exact fun hd hfd => hd hfd.symm
      · simp only [View.Holds, Function.update_of_ne hb]
        exact ⟨fun hd => ⟨hne (by simpa using hb) hd, hd⟩, fun hd => hd.2⟩
  refine ⟨fun d => ?_, fun x x' d hx hx' => ?_, h.nodup⟩
  · by_cases hd : d = fd
    · subst hd
      simp only [Function.update_self, Bool.false_eq_true, false_iff, not_exists]
      exact fun x hx => ((hholds x d).1 hx).1 rfl
    · simp only [Function.update_of_ne hd]
      rw [h.held d]
      exact exists_congr (fun x => by rw [hholds, and_iff_right hd])
  · exact h.one x x' d ((hholds x d).1 hx).2 ((hholds x' d).1 hx').2

/-- **Every pass leaves every open descriptor with one holder.** -/
theorem owned_pass (h : Owned v) (hp : Pass v v') : Owned v' := by
  cases hp with
  | stay => exact h
  | accept hfd => exact h.accept hfd
  | adopt hq ha => exact h.adopt hq ha
  | close ha => exact h.close ha

end Life

/-! ## The callbacks, seen from the descriptors -/

def view (s : St ns) : View ns := ⟨s.opened, s.connQueue, fun a => (s.heap a).map (fun c => c.tcp.fd)⟩

section Callbacks
variable {s s' : St ns} {ev : Libev} {timeout : Nat}

theorem fdOf_update (heap : Addr → Option Conn) (a : Addr) (c : Option Conn) :
    (fun b => (Function.update heap a c b).map (fun c => c.tcp.fd)) =
      Function.update (fun b => (heap b).map (fun c => c.tcp.fd)) a (c.map (fun c => c.tcp.fd)) := by
  funext b
  by_cases hb : b = a
  · subst hb
    simp
  · simp [hb]

/-- A connection rewritten in place keeps its descriptor. -/
theorem view_put {a : Addr} {c : Conn} (hc : s.heap a = some c) {tcp : TcpConnection} (hfd : tcp.fd = c.tcp.fd)
    (ios : Addr → Option (IoEntry ns)) :
    view { s with heap := Function.update s.heap a (some { c with tcp := tcp }), ios := ios } = view s := by
  unfold view
  simp only [fdOf_update, Option.map_some, hfd]
  congr 1
  have hsame : some c.tcp.fd = (fun b => (s.heap b).map (fun c => c.tcp.fd)) a := by simp [hc]
  rw [hsame, Function.update_eq_self]

theorem pass_close {a : Addr} {c : Conn} {i : Fin ns} {io : IOWatcher} (hc : s.heap a = some c)
    (hok : ConnOk s i a c io) : Pass (view s) (view (closeConn s i a c)) := by
  have hfd : (view s).fdOf a = some c.tcp.fd := by simp [view, hc]
  have hclose := Pass.close hfd
  unfold closeConn
  rw [if_neg hok.closable]
  simpa only [view, fdOf_update, Option.map_none] using hclose

theorem pass_accept (h : Inv s) (hns : 0 < ns) {fd : Int} (hfd : s.opened fd = false) :
    Pass (view s) (view (acceptStep s fd)) := by
  have hlt : s.nextWorker < ns := h.next.resolve_right (Nat.ne_of_gt hns)
  unfold acceptStep
  simp only [dif_pos hlt]
  exact Pass.accept (v := view s) hfd

theorem pass_newConn (h : Inv s) {i : Fin ns} {a : Addr} (ha : s.heap a = none) (w t : Addr) (ioFd : Int)
    (ioEvents : BitVec 32) (now : Nat) : Pass (view s) (view (newConnStep ev s i a w t ioFd ioEvents now)) := by
  unfold newConnStep
  cases hq : s.connQueue i with
  | nil => exact .stay
  | cons fd rest =>
    obtain ⟨hpos, hmax, -⟩ := h.queued i fd (by rw [hq]; exact List.mem_cons_self)
    obtain ⟨table, htab, -⟩ := setConn_table (s.conns i) fd.toNat (by omega) (.inr (by omega)) a
    have hfree : (view s).fdOf a = none := by simp [view, ha]
    have hadopt := Pass.adopt (v := view s) hq hfree
    simp only
    rw [if_neg (by omega), htab]
    simpa only [view, fdOf_update, Option.map_some] using hadopt

theorem pass_readQuery (h : Inv s) {i : Fin ns} {fd : Int} {rd : ReadAct} (hs : readQuery s i fd rd = some s') :
    Pass (view s) (view s') := by
  unfold readQuery at hs
  cases hsl : slot (s.conns i) fd with
  | none =>
    rw [hsl] at hs
    cases hs
    exact .stay
  | some a =>
    obtain ⟨c, io, hc, -, hok⟩ := h.at_slot (slot_eq_some.1 hsl).2
    simp only [hsl, hc] at hs
    split at hs
    · cases hs
    · rename_i q hq
      split at hs
      · cases hs
        exact pass_close hc hok
      · cases hs
        rw [view_put hc (readQuery_frame hq).1 s.ios]
        exact .stay

/-- Writing keeps every descriptor where it is. -/
theorem view_writeReply (h : Inv s) {i : Fin ns} {fd : Int} {wr : WriteAct} (hs : writeReply ev s i fd wr = some s') :
    view s' = view s := by
  unfold writeReply at hs
  cases hsl : WriteReply.writeTarget (s.conns i) fd with
  | none =>
    rw [hsl] at hs
    cases hs
    rfl
  | some a =>
    obtain ⟨c, io, hc, -, hok⟩ := h.at_slot (writeTarget_eq_some hsl)
    simp only [hsl, hc] at hs
    have hfd : (writeLoop a c.tcp wr).conn.fd = c.tcp.fd := (writeLoop_ok a c.tcp wr.now wr.answers wr.turns).fd
    split at hs
    · split at hs
      · cases hs
        exact view_put hc hfd s.ios
      · simp only [hok.ioWatcher] at hs
        cases hs
        exact view_put hc hfd _
    · cases hs

theorem pass_connIoCb (h : Inv s) {e : IoEntry ns} {events : BitVec 32} {rd : ReadAct} {wr : WriteAct}
    (hs : connIoCb ev s e events rd wr = some s') : Pass (view s) (view s') := by
  obtain ⟨s₁, h1, h2⟩ := Option.bind_eq_some_iff.1 hs
  have hmid : Inv s₁ ∧ Pass (view s) (view s₁) := by
    split at h1
    · exact ⟨inv_readQuery h h1, pass_readQuery h h1⟩
    · cases h1
      exact ⟨h, .stay⟩
  split at h2
  · cases h2
    exact hmid.2
  · split at h2
    · rw [view_writeReply hmid.1 h2]
      exact hmid.2
    · cases h2
      exact hmid.2

theorem pass_connTimerCb (h : Inv s) {t : Addr} {e : TimerEntry ns} (ht : s.timers t = some e) (now : Nat) :
    Pass (view s) (view (connTimerCb timeout s e now)) := by
  obtain ⟨c, io, hc, -, hok⟩ := h.at_timer ht
  rw [connTimerCb_eq timeout s e now hc]
  split
  · exact pass_close hc hok
  · exact .stay

theorem view_answerStep (h : Inv s) (i : Fin ns) (msg : RtcMsg (Fin ns)) (reply : Option Slice) :
    view (answerStep ev s i msg reply) = view s := by
  unfold answerStep
  cases ht : Offer.replyTarget (s.conns i) msg with
  | none => rfl
  | some a =>
    obtain ⟨c, io, hc, -, hok⟩ := h.at_slot (slot_eq_some.1 (ConnReuse.replyTarget_eq_some ht).2).2
    simp only [hc]
    cases reply with
    | none => rfl
    | some reply =>
      simp only [hok.ioWatcher]
      exact view_put hc (by rfl) _

/-- **Every callback moves one descriptor on, or none.** -/
theorem step_pass (h : Inv s) (hns : 0 < ns) {l : Label ns} (hs : step ev timeout s l = some s') :
    Pass (view s) (view s') := by
  unfold step at hs
  split at hs
  · cases hs
  · cases l with
    | accept fd =>
      simp only at hs
      split at hs
      · rename_i hok
        cases hs
        exact pass_accept h hns hok.1
      · cases hs
    | newConn i a w t ioFd ioEvents now =>
      simp only [Option.isNone_iff_eq_none] at hs
      split at hs
      · rename_i hok
        cases hs
        exact pass_newConn h hok.1 w t ioFd ioEvents now
      · cases hs
    | io w events rd wr =>
      simp only at hs
      split at hs
      · cases hs
      · split at hs
        · exact pass_connIoCb h hs
        · cases hs
    | timer t now =>
      simp only at hs
      split at hs
      · cases hs
      · rename_i e he
        cases hs
        exact pass_connTimerCb h he now
    | reply i msg reply =>
      cases hs
      rw [view_answerStep h i msg reply]
      exact .stay

theorem owned_init : Owned (view (init : St ns)) := by
  refine ⟨fun fd => ⟨fun h => (nomatch h), fun ⟨x, hx⟩ => ?_⟩, fun x x' fd hx => ?_, fun _ => List.nodup_nil⟩
  · cases x with
    | queue i => cases hx
    | conn a => cases hx
  · cases x with
    | queue i => cases hx
    | conn a => cases hx

theorem reachable_owned (hns : 0 < ns) (h : Lts.Reachable (step ev timeout) init s) : Owned (view s) := by
  have hinv : Inv s ∧ Owned (view s) := by
    refine h.invariant (I := fun s => Inv s ∧ Owned (view s)) ⟨inv_init, owned_init⟩ ?_
    exact fun _ _ _ hi hs => ⟨inv_step hi.1 hs, owned_pass hi.2 (step_pass hi.1 hns hs)⟩
  exact hinv.2

end Callbacks

/-- **Nothing is lost.**  In every reachable state the open descriptors are exactly those queued for a worker or held by
a live connection, each by one and once; every live watcher is its own connection's, and every live connection has both
of its watchers; and whatever callback comes next moves one descriptor on in its life, or none. -/
theorem descriptors_owned (hns : 0 < ns) (ev : Libev) (timeout : Nat) (s : St ns)
    (h : Lts.Reachable (step ev timeout) init s) :
    Owned (view s) ∧
    (∀ w, (s.ios w).isSome → ∃! a, ∃ c, s.heap a = some c ∧ c.ioWatcher = w) ∧
    (∀ t, (s.timers t).isSome → ∃! a, ∃ c, s.heap a = some c ∧ c.timerWatcher = t) ∧
    (∀ a c, s.heap a = some c → (s.ios c.ioWatcher).isSome ∧ (s.timers c.timerWatcher).isSome) ∧
    ∀ l s', step ev timeout s l = some s' → Pass (view s) (view s') := by
  have hinv := reachable_inv h
  refine ⟨reachable_owned hns h, fun w hw => ?_, fun t ht => ?_, fun a c hc => ?_, fun l s' hs => step_pass hinv hns hs⟩
  · obtain ⟨e, he⟩ := Option.isSome_iff_exists.1 hw
    obtain ⟨a, c, hc, hcw⟩ := hinv.ios w e he
    exact ⟨a, ⟨c, hc, hcw⟩, fun b ⟨d, hd, hdw⟩ => hinv.ioWatcher_inj hd hc (hdw.trans hcw.symm)⟩
  · obtain ⟨e, he⟩ := Option.isSome_iff_exists.1 ht
    obtain ⟨c, hc, hct⟩ := hinv.timers t e he
    exact ⟨e.conn, ⟨c, hc, hct⟩, fun b ⟨d, hd, hdt⟩ => hinv.timerWatcher_inj hd hc (hdt.trans hct.symm)⟩
  · obtain ⟨i, io, hok⟩ := hinv.live a c hc
    rw [hok.ioWatcher, hok.timer]
    exact ⟨rfl, rfl⟩

theorem descriptors_owned_halfSent : ∃ s : St 1, Lts.run (step EventLoop.libev 1000) init halfSent = some s ∧
    s.opened 5 = true ∧ ∃ h, (view s).Holds h 5 ∧ ∀ h', (view s).Holds h' 5 → h' = h := by
  have hsome : (Lts.run (step EventLoop.libev 1000) (init : St 1) halfSent).isSome = true := by decide
  obtain ⟨s, hs⟩ := Option.isSome_iff_exists.1 hsome
  have hopen : (Lts.run (step EventLoop.libev 1000) (init : St 1) halfSent).map (fun s => s.opened 5) = some true := by
    decide
  rw [hs, Option.map_some, Option.some.injEq] at hopen
  have hall := descriptors_owned Nat.zero_lt_one EventLoop.libev 1000 s (Lts.Reachable.of_run hs)
  obtain ⟨x, hx⟩ := (hall.1.held 5).1 hopen
  exact ⟨s, hs, hopen, x, hx, fun x' hx' => hall.1.one x' x 5 hx' hx⟩

/-! ## A round of ticks -/

/-- The round ticks the connection's timer with a reading that is `timeout` or more past. -/
def Expired (timeout : Nat) (ticks : List (Addr × Nat)) (c : Conn) : Prop :=
  ∃ p ∈ ticks, p.1 = c.timerWatcher ∧ timedOut timeout c.tcp p.2 = true

section Ticks
variable {ev : Libev} {timeout : Nat}

/-- One tick: its connection, if it has timed out, and no other. -/
theorem tick_one {s : St ns} (h : Inv s) {t : Addr} (ht : (s.timers t).isSome) (now : Nat) :
    ∃ s', step ev timeout s (.timer t now) = some s' ∧ Inv s' ∧ s'.connQueue = s.connQueue ∧
      (∀ a c, s'.heap a = some c ↔ s.heap a = some c ∧ ¬(c.timerWatcher = t ∧ timedOut timeout c.tcp now = true)) ∧
      ∀ t', t' ≠ t → s'.timers t' = s.timers t' := by
  obtain ⟨e, he⟩ := Option.isSome_iff_exists.1 ht
  obtain ⟨c, io, hc, hct, hok⟩ := h.at_timer he
  have hrun : s.crashed = false := h.not_crashed e.loop
  have hstep : step ev timeout s (.timer t now) = some (connTimerCb timeout s e now) := by simp [step, hrun, he]
  refine ⟨_, hstep, inv_connTimerCb h he now, ?_⟩
  rw [connTimerCb_eq timeout s e now hc]
  by_cases hout : timedOut timeout c.tcp now = true
  · rw [if_pos hout]
    unfold closeConn
    rw [if_neg hok.closable]
    refine ⟨rfl, fun a d => ?_, fun t' ht' => ?_⟩
    · by_cases ha : a = e.conn
      · subst ha
        simp only [Function.update_self, reduceCtorEq, false_iff, hc, Option.some.injEq]
        rintro ⟨rfl, hno⟩
        exact hno ⟨hct, hout⟩
      · simp only [Function.update_of_ne ha, iff_self_and]
        rintro hd ⟨hdt, -⟩
        exact ha (h.timerWatcher_inj hd hc (hdt.trans hct.symm))
    · simp only [Function.update_of_ne (hct ▸ ht')]
  · rw [if_neg hout]
    refine ⟨rfl, fun a d => iff_self_and.2 ?_, fun _ _ => rfl⟩
    rintro hd ⟨hdt, hdout⟩
    have ha := h.timerWatcher_inj hd hc (hdt.trans hct.symm)
    rw [ha, hc, Option.some.injEq] at hd
    exact hout (hd ▸ hdout)

theorem ticks_run : ∀ (ticks : List (Addr × Nat)) (s : St ns), Inv s → (ticks.map Prod.fst).Nodup →
    (∀ p ∈ ticks, (s.timers p.1).isSome) →
    ∃ s', Lts.run (step ev timeout) s (ticks.map (fun p => .timer p.1 p.2)) = some s' ∧ Inv s' ∧
      s'.connQueue = s.connQueue ∧ ∀ a c, s'.heap a = some c ↔ s.heap a = some c ∧ ¬Expired timeout ticks c
  | [], s, h, _, _ => by
    refine ⟨s, rfl, h, rfl, fun a c => iff_self_and.2 (fun _ => ?_)⟩
    rintro ⟨p, hp, -⟩
    cases hp
  | (t, now) :: ticks, s, h, hnd, hlive => by
    rw [List.map_cons, List.nodup_cons] at hnd
    obtain ⟨s₁, hs₁, hinv₁, hq₁, hheap₁, htimers₁⟩ :=
      @tick_one _ ev timeout s h t (hlive _ List.mem_cons_self) now
    have hlive₁ : ∀ p ∈ ticks, (s₁.timers p.1).isSome := by
      intro p hp
      have hne : p.1 ≠ t := fun he => hnd.1 (List.mem_map.2 ⟨p, hp, he⟩)
      rw [htimers₁ p.1 hne]
      exact hlive p (List.mem_cons_of_mem _ hp)
    obtain ⟨s', hs', hinv', hq', hheap'⟩ := ticks_run ticks s₁ hinv₁ hnd.2 hlive₁
    refine ⟨s', ?_, hinv', hq'.trans hq₁, fun a c => ?_⟩
    · rw [List.map_cons, Lts.run, hs₁, Option.bind_some, hs']
    · rw [hheap', hheap₁, and_assoc, ← not_or]
      refine and_congr_right (fun _ => not_congr ?_)
      unfold Expired
      rw [List.exists_mem_cons_iff]
      exact or_congr_left (and_congr_left (fun _ => eq_comm))

end Ticks

end ConnTable
end Xrtc
