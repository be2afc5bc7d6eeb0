import Xrtc.ConnTable
/-!
# ConnTableInv — tables, live connections, watchers and descriptors agree

`Inv` couples every worker's table, the live connections, their two watchers, the hand-over queues and the open
descriptors.  Four primitive changes keep it: a connection and its IO watcher are rewritten in place (`inv_put`), a
connection is closed (`inv_close`), made (`inv_new`) or accepted (`inv_accept`); every callback is one or two of these.
-/
namespace Xrtc
namespace ConnTable

open EventLoop (Libev IOWatcher startIoEvent stopIoEvent creatIoEvent READ WRITE)
open ConnReuse (slot setConn slot_eq_some setConn_get)

variable {ns : Nat}

/-- The watcher of a connection is active on its descriptor for `READ`, and for `WRITE` while replies are queued. -/
structure MaskOk (c : Conn) (io : IOWatcher) : Prop where
  active : io.active = true
  fd : io.fd = c.tcp.fd
  read : io.r = true
  write : io.w = true ↔ c.tcp.replyList ≠ []

/-- Connection `c` at address `a` belongs to worker `i`. -/
structure ConnOk (s : St ns) (i : Fin ns) (a : Addr) (c : Conn) (io : IOWatcher) : Prop where
  pos : 1 ≤ c.tcp.fd
  slot : (s.conns i)[c.tcp.fd.toNat]? = some (some a)
  opened : s.opened c.tcp.fd = true
  ioWatcher : s.ios c.ioWatcher = some ⟨i, io⟩
  timer : s.timers c.timerWatcher = some ⟨i, a⟩
  mask : MaskOk c io

structure Inv (s : St ns) : Prop where
  live : ∀ a c, s.heap a = some c → ∃ i io, ConnOk s i a c io
  table : ∀ i (k : Nat) a, (s.conns i)[k]? = some (some a) →
    ∃ c io, s.heap a = some c ∧ c.tcp.fd = k ∧ s.ios c.ioWatcher = some ⟨i, io⟩
  fds : ∀ a b c d, s.heap a = some c → s.heap b = some d → c.tcp.fd = d.tcp.fd → a = b
  ios : ∀ w e, s.ios w = some e → ∃ a c, s.heap a = some c ∧ c.ioWatcher = w
  timers : ∀ t e, s.timers t = some e → ∃ c, s.heap e.conn = some c ∧ c.timerWatcher = t
  queued : ∀ i, ∀ fd ∈ s.connQueue i, 1 ≤ fd ∧ fd < 2 ^ 30 ∧ s.opened fd = true ∧
    ∀ a c, s.heap a = some c → c.tcp.fd ≠ fd
  once : ∀ i, (s.connQueue i).Nodup
  apart : ∀ i j fd, fd ∈ s.connQueue i → fd ∈ s.connQueue j → i = j
  next : s.nextWorker < ns ∨ ns = 0
  sound : s.crashed = false ∨ ns = 0

section Unique
variable {s : St ns} {a b : Addr} {c d : Conn}

theorem Inv.ioWatcher_inj (h : Inv s) (hc : s.heap a = some c) (hd : s.heap b = some d)
    (he : c.ioWatcher = d.ioWatcher) : a = b := by
  obtain ⟨i, io, hi⟩ := h.live a c hc
  obtain ⟨j, io', hj⟩ := h.live b d hd
  have hent := hi.ioWatcher
  rw [he, hj.ioWatcher] at hent
  cases hent
  exact h.fds a b c d hc hd (hi.mask.fd.symm.trans hj.mask.fd)

theorem Inv.timerWatcher_inj (h : Inv s) (hc : s.heap a = some c) (hd : s.heap b = some d)
    (he : c.timerWatcher = d.timerWatcher) : a = b := by
  obtain ⟨i, io, hi⟩ := h.live a c hc
  obtain ⟨j, io', hj⟩ := h.live b d hd
  have hent := hi.timer
  rw [he, hj.timer] at hent
  cases hent
  rfl

end Unique

/-! ## Updated maps -/

section Update
variable {T : Type} {g : Addr → Option T} {a b : Addr} {v d : T}

theorem update_some (h : Function.update g a (some v) b = some d) : (b = a ∧ v = d) ∨ (b ≠ a ∧ g b = some d) := by
  by_cases hb : b = a
  · rw [hb, Function.update_self, Option.some.injEq] at h
    exact .inl ⟨hb, h⟩
  · rw [Function.update_of_ne hb] at h
    exact .inr ⟨hb, h⟩

theorem update_none (h : Function.update g a none b = some d) : b ≠ a ∧ g b = some d := by
  by_cases hb : b = a
  · rw [hb, Function.update_self] at h
    cases h
  · rw [Function.update_of_ne hb] at h
    exact ⟨hb, h⟩

theorem update_other {x : Option T} (hb : b ≠ a) (h : g b = some d) : Function.update g a x b = some d := by
  rw [Function.update_of_ne hb, h]

end Update

/-! ## The primitive changes -/

section Primitive
variable {s : St ns} {i : Fin ns} {a : Addr} {c : Conn} {io : IOWatcher}

/-- The other connections have other watchers and another descriptor. -/
theorem Inv.others (h : Inv s) (hc : s.heap a = some c) {b : Addr} {d : Conn} (hb : b ≠ a) (hd : s.heap b = some d) :
    d.ioWatcher ≠ c.ioWatcher ∧ d.timerWatcher ≠ c.timerWatcher ∧ d.tcp.fd ≠ c.tcp.fd :=
  ⟨fun he => hb (h.ioWatcher_inj hd hc he), fun he => hb (h.timerWatcher_inj hd hc he),
    fun he => hb (h.fds b a d c hd hc he)⟩

/-- A connection whose IO watcher is another one is another connection. -/
theorem ne_of_ioWatcher {b w : Addr} {d : Conn} (hc : s.heap a = some c) (hd : s.heap b = some d)
    (hdw : d.ioWatcher = w) (hw : w ≠ c.ioWatcher) : b ≠ a := by
  rintro rfl
  rw [hc] at hd
  cases hd
  exact hw hdw.symm

theorem ne_of_timerWatcher {b t : Addr} {d : Conn} (hc : s.heap a = some c) (hd : s.heap b = some d)
    (hdt : d.timerWatcher = t) (ht : t ≠ c.timerWatcher) : b ≠ a := by
  rintro rfl
  rw [hc] at hd
  cases hd
  exact ht hdt.symm

/-- **A connection and its IO watcher are rewritten in place.** -/
theorem inv_put (h : Inv s) (hc : s.heap a = some c) (hok : ConnOk s i a c io) {tcp : TcpConnection} {io' : IOWatcher}
    (hfd : tcp.fd = c.tcp.fd) (hm : MaskOk { c with tcp := tcp } io') :
    Inv { s with heap := Function.update s.heap a (some { c with tcp := tcp })
                 ios := Function.update s.ios c.ioWatcher (some ⟨i, io'⟩) } := by
  -- descriptors did not change
  have hfds : ∀ b d, Function.update s.heap a (some { c with tcp := tcp }) b = some d →
      ∃ d₀, s.heap b = some d₀ ∧ d₀.tcp.fd = d.tcp.fd := by
    intro b d hd
    rcases update_some hd with ⟨rfl, rfl⟩ | ⟨-, hd⟩
    · exact ⟨c, hc, hfd.symm⟩
    · exact ⟨d, hd, rfl⟩
  refine ⟨?_, ?_, ?_, ?_, ?_, ?_, h.once, h.apart, h.next, h.sound⟩
  · intro b d hd
    rcases update_some hd with ⟨rfl, rfl⟩ | ⟨hb, hd⟩
    · exact ⟨i, io', by rw [hfd]; exact hok.pos, by rw [hfd]; exact hok.slot, by rw [hfd]; exact hok.opened,
        Function.update_self _ _ _, hok.timer, hm⟩
    · obtain ⟨j, io₁, hj⟩ := h.live b d hd
      exact ⟨j, io₁, hj.pos, hj.slot, hj.opened, update_other (h.others hc hb hd).1 hj.ioWatcher, hj.timer, hj.mask⟩
  · intro j k b hb
    obtain ⟨d, io₁, hd, hk, hent⟩ := h.table j k b hb
    by_cases hba : b = a
    · subst hba
      rw [hc] at hd
      cases hd
      rw [hok.ioWatcher] at hent
      cases hent
      exact ⟨{ c with tcp := tcp }, io', Function.update_self _ _ _, by rw [← hk]; exact hfd, Function.update_self _ _ _⟩
    · exact ⟨d, io₁, update_other hba hd, hk, update_other (h.others hc hba hd).1 hent⟩
  · intro b b' d d' hd hd' he
    obtain ⟨e, he1, he2⟩ := hfds b d hd
    obtain ⟨e', he1', he2'⟩ := hfds b' d' hd'
    exact h.fds b b' e e' he1 he1' (by rw [he2, he2']; exact he)
  · intro w e he
    rcases update_some he with ⟨rfl, -⟩ | ⟨hw, he⟩
    · exact ⟨a, { c with tcp := tcp }, Function.update_self _ _ _, rfl⟩
    · obtain ⟨b, d, hd, hdw⟩ := h.ios w e he
      exact ⟨b, d, update_other (ne_of_ioWatcher hc hd hdw hw) hd, hdw⟩
  · intro t e he
    obtain ⟨d, hd, hdt⟩ := h.timers t e he
    by_cases hea : e.conn = a
    · rw [hea, hc] at hd
      cases hd
      exact ⟨{ c with tcp := tcp }, by rw [hea]; exact Function.update_self _ _ _, hdt⟩
    · exact ⟨d, update_other hea hd, hdt⟩
  · intro j fd hmem
    obtain ⟨h1, h2, h3, h4⟩ := h.queued j fd hmem
    refine ⟨h1, h2, h3, fun b d hd => ?_⟩
    obtain ⟨d₀, hd₀, he⟩ := hfds b d hd
    rw [← he]
    exact h4 b d₀ hd₀

/-- The same, with the IO watcher left alone. -/
theorem inv_putTcp (h : Inv s) (hc : s.heap a = some c) (hok : ConnOk s i a c io) {tcp : TcpConnection}
    (hfd : tcp.fd = c.tcp.fd) (hl : tcp.replyList = [] ↔ c.tcp.replyList = []) :
    Inv { s with heap := Function.update s.heap a (some { c with tcp := tcp }) } := by
  have hm : MaskOk { c with tcp := tcp } io :=
    ⟨hok.mask.active, by rw [hok.mask.fd]; exact hfd.symm, hok.mask.read, by rw [hok.mask.write]; exact not_congr hl.symm⟩
  have hput := inv_put h hc hok hfd hm
  have hsame : Function.update s.ios c.ioWatcher (some ⟨i, io⟩) = s.ios := by
    rw [← hok.ioWatcher, Function.update_eq_self]
  rw [hsame] at hput
  exact hput

theorem ConnOk.inTable (h : ConnOk s i a c io) : c.tcp.fd.toNat < (s.conns i).length :=
  (List.getElem?_eq_some_iff.1 h.slot).1

/-- What `close_conn_` deletes is there. -/
theorem ConnOk.closable (h : ConnOk s i a c io) : ¬ ((s.timers c.timerWatcher).isNone ∨ (s.ios c.ioWatcher).isNone ∨
    (s.conns i).length ≤ c.tcp.fd.toNat) := by
  have hlen := h.inTable
  rw [h.timer, h.ioWatcher]
  simp
  exact hlen

/-- **After `close_conn_`** nothing points to what it deleted. -/
theorem inv_close (h : Inv s) (hc : s.heap a = some c) (hok : ConnOk s i a c io) : Inv (closeConn s i a c) := by
  have hlen := hok.inTable
  unfold closeConn
  rw [if_neg hok.closable]
  refine ⟨?_, ?_, ?_, ?_, ?_, ?_, h.once, h.apart, h.next, h.sound⟩
  · intro b d hd
    obtain ⟨hb, hd⟩ := update_none hd
    obtain ⟨j, io₁, hj⟩ := h.live b d hd
    obtain ⟨hio, htm, hne⟩ := h.others hc hb hd
    refine ⟨j, io₁, hj.pos, ?_, ?_, update_other hio hj.ioWatcher, update_other htm hj.timer, hj.mask⟩
    · simp only
      by_cases hji : j = i
      · have hn : c.tcp.fd.toNat ≠ d.tcp.fd.toNat := by
          have h1 := hok.pos
          have h2 := hj.pos
          omega
        rw [hji, Function.update_self, List.getElem?_set_ne hn, ← hji]
        exact hj.slot
      · rw [Function.update_of_ne hji]
        exact hj.slot
    · simp only [Function.update_of_ne hne]
      exact hj.opened
  · intro j k b hb
    have hold : (s.conns j)[k]? = some (some b) ∧ b ≠ a := by
      simp only at hb
      by_cases hji : j = i
      · subst hji
        rw [Function.update_self, List.getElem?_set] at hb
        split at hb
        · cases hb
        · rename_i hk
          refine ⟨hb, fun hba => ?_⟩
          obtain ⟨d, io₁, hd, hdk, -⟩ := h.table j k b hb
          rw [hba, hc] at hd
          cases hd
          omega
      · rw [Function.update_of_ne hji] at hb
        refine ⟨hb, fun hba => ?_⟩
        obtain ⟨d, io₁, hd, -, hent⟩ := h.table j k b hb
        rw [hba, hc] at hd
        cases hd
        rw [hok.ioWatcher] at hent
        cases hent
        exact hji rfl
    obtain ⟨d, io₁, hd, hk, hent⟩ := h.table j k b hold.1
    exact ⟨d, io₁, update_other hold.2 hd, hk, update_other (h.others hc hold.2 hd).1 hent⟩
  · intro b b' d d' hd hd' he
    exact h.fds b b' d d' (update_none hd).2 (update_none hd').2 he
  · intro w e he
    obtain ⟨hw, he⟩ := update_none he
    obtain ⟨b, d, hd, hdw⟩ := h.ios w e he
    exact ⟨b, d, update_other (ne_of_ioWatcher hc hd hdw hw) hd, hdw⟩
  · intro t e he
    obtain ⟨ht, he⟩ := update_none he
    obtain ⟨d, hd, hdt⟩ := h.timers t e he
    exact ⟨d, update_other (ne_of_timerWatcher hc hd hdt ht) hd, hdt⟩
  · intro j fd hmem
    obtain ⟨h1, h2, h3, h4⟩ := h.queued j fd hmem
    have hne : fd ≠ c.tcp.fd := fun he => h4 a c hc he.symm
    exact ⟨h1, h2, by simp only [Function.update_of_ne hne]; exact h3, fun b d hd => h4 b d (update_none hd).2⟩

/-- The table `new_conn` leaves: the new connection in its slot, every earlier entry where it was, and no longer than an
`int` can say. -/
theorem setConn_table (conns : List (Option Addr)) (fd : Nat) (h1 : 1 ≤ fd) (h2 : fd < conns.length ∨ fd < 2 ^ 30)
    (a : Addr) : ∃ table, setConn conns fd a = some table ∧ table[fd]? = some (some a) ∧
      (∀ k, k ≠ fd → k < conns.length → table[k]? = conns[k]?) ∧ (conns.length < 2 ^ 31 → table.length < 2 ^ 31) := by
  unfold setConn
  by_cases hl : conns.length ≤ fd
  · rw [if_pos hl, if_neg (by omega)]
    refine ⟨_, rfl, ?_, fun k hk hlt => ?_, fun _ => ?_⟩
    · rw [List.getElem?_set_self]
      simp only [List.length_append, List.length_replicate]
      omega
    · rw [List.getElem?_set_ne (Ne.symm hk), List.getElem?_append_left hlt]
    · simp only [List.length_set, List.length_append, List.length_replicate]
      omega
  · rw [if_neg hl]
    refine ⟨_, rfl, ?_, fun k hk _ => List.getElem?_set_ne (Ne.symm hk), fun hsize => ?_⟩
    · rw [List.getElem?_set_self (by omega)]
    · rw [List.length_set]
      exact hsize

/-- A table entry after `new_conn`: the new one or an earlier one. -/
theorem entry_new {conns : Fin ns → List (Option Addr)} {fd k : Nat} {table : List (Option Addr)} {b : Addr} {j : Fin ns}
    (htab : setConn (conns i) fd a = some table) (hb : (Function.update conns i table j)[k]? = some (some b)) :
    (j = i ∧ k = fd ∧ b = a) ∨ (conns j)[k]? = some (some b) := by
  by_cases hji : j = i
  · rw [hji, Function.update_self] at hb
    rcases setConn_get htab hb with ⟨hk, hba⟩ | ⟨-, hold⟩
    · exact .inl ⟨hji, hk, hba⟩
    · rw [hji]
      exact .inr hold
  · rw [Function.update_of_ne hji] at hb
    exact .inr hb

/-- A queue keeps only entries it had, and the first of queue `i` is gone. -/
theorem Inv.mem_dequeued (h : Inv s) {fd : Int} {rest : List Int} (hq : s.connQueue i = fd :: rest) {j : Fin ns} {x : Int}
    (hx : x ∈ Function.update s.connQueue i rest j) : x ∈ s.connQueue j ∧ x ≠ fd := by
  by_cases hj : j = i
  · rw [hj, Function.update_self] at hx
    have hnd := h.once i
    rw [hq, List.nodup_cons] at hnd
    rw [hj, hq]
    exact ⟨List.mem_cons_of_mem _ hx, fun he => hnd.1 (he ▸ hx)⟩
  · rw [Function.update_of_ne hj] at hx
    exact ⟨hx, fun he => hj (h.apart j i x hx (by rw [hq, he]; exact List.mem_cons_self))⟩

/-- An allocator's address is not one of a live connection. -/
theorem Inv.fresh (h : Inv s) {w t : Addr} (ha : s.heap a = none) (hw : s.ios w = none) (ht : s.timers t = none)
    {b : Addr} {d : Conn} (hd : s.heap b = some d) : b ≠ a ∧ d.ioWatcher ≠ w ∧ d.timerWatcher ≠ t := by
  obtain ⟨j, io₁, hj⟩ := h.live b d hd
  refine ⟨fun hb => ?_, fun hb => ?_, fun hb => ?_⟩
  · rw [hb, ha] at hd
    cases hd
  · rw [← hb, hj.ioWatcher] at hw
    cases hw
  · rw [← hb, hj.timer] at ht
    cases ht

/-- **`new_conn`** of a descriptor from the queue: no live connection has it, so its slot is free. -/
theorem inv_new (h : Inv s) {fd : Int} {rest : List Int} (hq : s.connQueue i = fd :: rest) {w t : Addr}
    (ha : s.heap a = none) (hw : s.ios w = none) (ht : s.timers t = none) {table : List (Option Addr)}
    (htab : setConn (s.conns i) fd.toNat a = some table) {tcp : TcpConnection} (hfd : tcp.fd = fd)
    (hm : MaskOk ⟨tcp, w, t⟩ io) :
    Inv { s with
      connQueue := Function.update s.connQueue i rest
      conns := Function.update s.conns i table
      heap := Function.update s.heap a (some ⟨tcp, w, t⟩)
      ios := Function.update s.ios w (some ⟨i, io⟩)
      timers := Function.update s.timers t (some ⟨i, a⟩) } := by
  obtain ⟨hpos, hmax, hopen, hnone⟩ := h.queued i fd (by rw [hq]; exact List.mem_cons_self)
  obtain ⟨table', htab', hself, hkeep, -⟩ := setConn_table (s.conns i) fd.toNat (by omega) (.inr (by omega)) a
  rw [htab] at htab'
  cases htab'
  refine ⟨?_, ?_, ?_, ?_, ?_, ?_, ?_, ?_, h.next, h.sound⟩
  · intro b d hd
    rcases update_some hd with ⟨rfl, rfl⟩ | ⟨-, hold⟩
    · exact ⟨i, io, by rw [hfd]; exact hpos, by simp only [Function.update_self, hfd]; exact hself,
        by rw [hfd]; exact hopen, Function.update_self _ _ _, Function.update_self _ _ _, hm⟩
    · obtain ⟨j, io₁, hj⟩ := h.live b d hold
      obtain ⟨-, hio, htm⟩ := h.fresh ha hw ht hold
      refine ⟨j, io₁, hj.pos, ?_, hj.opened, update_other hio hj.ioWatcher, update_other htm hj.timer, hj.mask⟩
      by_cases hji : j = i
      · subst hji
        have hfdne : d.tcp.fd.toNat ≠ fd.toNat := by
          have h1 := hj.pos
          have h2 := hnone b d hold
          omega
        simp only [Function.update_self]
        rw [hkeep _ hfdne hj.inTable]
        exact hj.slot
      · simp only [Function.update_of_ne hji]
        exact hj.slot
  · intro j k b hb
    rcases entry_new htab hb with ⟨rfl, rfl, rfl⟩ | hold
    · exact ⟨⟨tcp, w, t⟩, io, Function.update_self _ _ _, by simp only [hfd]; omega, Function.update_self _ _ _⟩
    · obtain ⟨d, io₁, hd, hk, hent⟩ := h.table j k b hold
      obtain ⟨hne, hio, -⟩ := h.fresh ha hw ht hd
      exact ⟨d, io₁, update_other hne hd, hk, update_other hio hent⟩
  · intro b b' d d' hd hd' he
    rcases update_some hd with ⟨hb, rfl⟩ | ⟨-, hd⟩ <;> rcases update_some hd' with ⟨hb', rfl⟩ | ⟨-, hd'⟩
    · rw [hb, hb']
    · exact absurd (he.symm.trans hfd) (hnone b' d' hd')
    · exact absurd (he.trans hfd) (hnone b d hd)
    · exact h.fds b b' d d' hd hd' he
  · intro x e he
    rcases update_some he with ⟨hx, -⟩ | ⟨-, he⟩
    · exact ⟨a, ⟨tcp, w, t⟩, Function.update_self _ _ _, hx.symm⟩
    · obtain ⟨b, d, hd, hdw⟩ := h.ios x e he
      exact ⟨b, d, update_other (h.fresh ha hw ht hd).1 hd, hdw⟩
  · intro x e he
    rcases update_some he with ⟨hx, rfl⟩ | ⟨-, he⟩
    · exact ⟨⟨tcp, w, t⟩, Function.update_self _ _ _, hx.symm⟩
    · obtain ⟨d, hd, hdt⟩ := h.timers x e he
      exact ⟨d, update_other (h.fresh ha hw ht hd).1 hd, hdt⟩
  · intro j x hx
    obtain ⟨hold, hxne⟩ := h.mem_dequeued hq hx
    obtain ⟨h1, h2, h3, h4⟩ := h.queued j x hold
    refine ⟨h1, h2, h3, fun b d hd => ?_⟩
    rcases update_some hd with ⟨-, rfl⟩ | ⟨-, hd⟩
    · simp only [hfd]
      exact hxne.symm
    · exact h4 b d hd
  · intro j
    by_cases hj : j = i
    · have hnd := h.once i
      rw [hq, List.nodup_cons] at hnd
      simp only [hj, Function.update_self]
      exact hnd.2
    · simp only [Function.update_of_ne hj]
      exact h.once j
  · intro j j' x hx hx'
    exact h.apart j j' x (h.mem_dequeued hq hx).1 (h.mem_dequeued hq hx').1

/-- A descriptor that is not open is nobody's. -/
theorem Inv.unused (h : Inv s) {fd : Int} (hfd : s.opened fd = false) :
    (∀ b d, s.heap b = some d → d.tcp.fd ≠ fd) ∧ ∀ j, ∀ x ∈ s.connQueue j, x ≠ fd := by
  refine ⟨fun b d hd he => ?_, fun j x hx he => ?_⟩
  · obtain ⟨j, io₁, hj⟩ := h.live b d hd
    have hopen := hj.opened
    rw [he, hfd] at hopen
    cases hopen
  · have hopen := (h.queued j x hx).2.2.1
    rw [he, hfd] at hopen
    cases hopen

theorem mem_enqueued {queue : Fin ns → List Int} {fd x : Int} {j : Fin ns}
    (hx : x ∈ Function.update queue i (queue i ++ [fd]) j) : x ∈ queue j ∨ (x = fd ∧ j = i) := by
  by_cases hj : j = i
  · rw [hj, Function.update_self, List.mem_append, List.mem_singleton] at hx
    rw [hj]
    exact hx.imp_right (fun he => ⟨he, rfl⟩)
  · rw [Function.update_of_ne hj] at hx
    exact .inl hx

/-- A descriptor is opened and queued for worker `i`. -/
theorem inv_enqueue (h : Inv s) {fd : Int} (hfd : s.opened fd = false) (hpos : 1 ≤ fd) (hmax : fd < 2 ^ 30)
    {next : Nat} (hnext : next < ns ∨ ns = 0) :
    Inv { s with
      opened := Function.update s.opened fd true, nextWorker := next
      connQueue := Function.update s.connQueue i (s.connQueue i ++ [fd]) } := by
  obtain ⟨hlive, hqueued⟩ := h.unused hfd
  have hopen : ∀ x, s.opened x = true → Function.update s.opened fd true x = true := by
    intro x hx
    rw [Function.update_apply, hx, ite_self]
  refine ⟨?_, h.table, h.fds, h.ios, h.timers, ?_, ?_, ?_, hnext, h.sound⟩
  · intro b d hd
    obtain ⟨j, io₁, hj⟩ := h.live b d hd
    exact ⟨j, io₁, hj.pos, hj.slot, hopen _ hj.opened, hj.ioWatcher, hj.timer, hj.mask⟩
  · intro j x hx
    rcases mem_enqueued hx with hold | ⟨rfl, -⟩
    · obtain ⟨h1, h2, h3, h4⟩ := h.queued j x hold
      exact ⟨h1, h2, hopen x h3, h4⟩
    · exact ⟨hpos, hmax, Function.update_self _ _ _, hlive⟩
  · intro j
    by_cases hj : j = i
    · simp only [hj, Function.update_self]
      rw [List.nodup_append]
      refine ⟨h.once _, List.nodup_singleton _, fun x hx y hy => ?_⟩
      rw [List.mem_singleton.1 hy]
      exact hqueued _ x hx
    · simp only [Function.update_of_ne hj]
      exact h.once j
  · intro j j' x hx hx'
    rcases mem_enqueued hx with hold | ⟨he, hj⟩ <;> rcases mem_enqueued hx' with hold' | ⟨he', hj'⟩
    · exact h.apart j j' x hold hold'
    · exact absurd he' (hqueued j x hold)
    · exact absurd he (hqueued j' x hold')
    · rw [hj, hj']

/-- **An accepted descriptor** was not open, so nothing has it yet. -/
theorem inv_accept (h : Inv s) {fd : Int} (hfd : s.opened fd = false) (hpos : 1 ≤ fd) (hmax : fd < 2 ^ 30) :
    Inv (acceptStep s fd) := by
  unfold acceptStep
  simp only
  by_cases hn : s.nextWorker < ns
  · rw [dif_pos hn]
    refine inv_enqueue h hfd hpos hmax ?_
    split
    · exact .inl (Nat.lt_of_le_of_lt (Nat.zero_le _) hn)
    · exact .inl (by omega)
  · -- no worker at all
    have h0 : ns = 0 := h.next.resolve_left hn
    rw [dif_neg hn]
    refine ⟨?_, h.table, h.fds, h.ios, h.timers, ?_, h.once, h.apart, .inr h0, .inr h0⟩
    · intro b d hd
      obtain ⟨j, -, -⟩ := h.live b d hd
      exact absurd j.isLt (by omega)
    · intro j
      exact absurd j.isLt (by omega)

end Primitive

end ConnTable
end Xrtc
