import Xrtc.Conn
import Xrtc.Lts
/-!
# WriteReply — the bytes a connection's socket has accepted

`SignalingWorker::_add_reply` and `_write_reply` (`server/signaling_worker.cpp`) with `sock_write_data`
(`base/socket.cpp`) on one connection, one iteration of the while loop at a time.  Both run on the worker's thread, so a
reply is added only between two `_write_reply` calls.  The state also records what cannot be read off the connection:
the replies added, the buffers released with `zfree`, and the bytes `write(2)` took.
-/
namespace Xrtc
namespace WriteReply

/-- What `write(2)` answers: how many bytes it took, or an error, `EAGAIN` or another. -/
inductive SysWrite where
  | wrote (k : Nat)
  | err (eagain : Bool)
  deriving DecidableEq

def sockWriteData : SysWrite → Int
  | .wrote k => k
  | .err true => 0
  | .err false => -1

inductive Phase where
  | idle
  | writing
  deriving DecidableEq

/-- The connection at address `self`; `watching` says whether its `WRITE` event is started. -/
structure St where
  self : Addr
  conn : TcpConnection
  watching : Bool
  phase : Phase
  added : List Slice
  freed : List Slice
  accepted : List UInt8

/-- `now` is the loop's clock when the loop is left. -/
inductive Label where
  | addReply (reply : Slice)
  | writeReply (conns : List (Option Addr)) (fd : Int)
  | iter (now : Nat) (r : SysWrite)

def init (self : Addr) (fd : Int) : St := ⟨self, { fd := fd }, false, .idle, [], [], []⟩

def addReply (s : St) (reply : Slice) : St :=
  { s with conn := { s.conn with replyList := s.conn.replyList ++ [reply] }, watching := true, added := s.added ++ [reply] }

/-- The guards of `_write_reply`: the connection it writes on. -/
def writeTarget (conns : List (Option Addr)) (fd : Int) : Option Addr :=
  if fd ≤ 0 ∨ (conns.length : Int) ≤ fd then none else conns.getD fd.toNat none

/-- One evaluation of the while condition of `_write_reply` and the iteration it admits. -/
def iterate (s : St) (now : Nat) (r : SysWrite) : St :=
  match s.conn.replyList with
  | [] => { s with conn := { s.conn with lastInteractionTime := now }, watching := false, phase := .idle }
  | reply :: rest =>
    let nwritten := sockWriteData r
    let s := { s with accepted := s.accepted ++ Bytes.readMem reply.data s.conn.curRespPos nwritten.toNat }
    if nwritten = -1 then { s with phase := .idle }
    else if nwritten = 0 then s
    else if reply.size ≤ nwritten.toNat + s.conn.curRespPos then
      { s with conn := { s.conn with replyList := rest, curRespPos := 0 }, freed := s.freed ++ [reply] }
    else { s with conn := { s.conn with curRespPos := s.conn.curRespPos + nwritten.toNat } }

def step (s : St) : Label → Option St
  | .addReply reply => if s.phase = .idle then some (addReply s reply) else none
  | .writeReply conns fd =>
    if s.phase = .idle then
      if writeTarget conns fd = some s.self then some { s with phase := .writing } else some s
    else none
  | .iter now r => if s.phase = .writing then some (iterate s now r) else none

/-- What is asked of the surroundings: replies are not empty, and `write(2)` takes no more than it was given. -/
def Fits (s : St) : Label → Prop
  | .addReply reply => 0 < reply.size
  | .iter _ (.wrote k) => ∀ reply ∈ s.conn.replyList.head?, k ≤ reply.size - s.conn.curRespPos
  | _ => True

instance (s : St) : (l : Label) → Decidable (Fits s l)
  | .addReply reply => inferInstanceAs (Decidable (0 < reply.size))
  | .iter _ (.wrote k) =>
    inferInstanceAs (Decidable (∀ reply ∈ s.conn.replyList.head?, k ≤ reply.size - s.conn.curRespPos))
  | .iter _ (.err _) => inferInstanceAs (Decidable True)
  | .writeReply _ _ => inferInstanceAs (Decidable True)

/-! ## The invariant -/

/-- The bytes of the front reply that were already taken. -/
def front (c : TcpConnection) : List UInt8 :=
  match c.replyList with
  | [] => []
  | reply :: _ => Bytes.readMem reply.data 0 c.curRespPos

/-- The position lies inside the front reply, or is 0 when there is none. -/
def posOk (c : TcpConnection) : Prop :=
  match c.replyList with
  | [] => c.curRespPos = 0
  | reply :: _ => c.curRespPos < reply.size

/-- The replies split into those released and those queued; the socket took all of the former and the taken part of the
front one. -/
structure Inv (s : St) : Prop where
  split : s.added = s.freed ++ s.conn.replyList
  taken : s.accepted = s.freed.flatMap Slice.bytes ++ front s.conn
  pos : posOk s.conn
  sizes : ∀ reply ∈ s.conn.replyList, 0 < reply.size

theorem inv_addReply {s : St} {reply : Slice} (h : Inv s) (hpos : 0 < reply.size) : Inv (addReply s reply) := by
  obtain ⟨hsplit, htaken, hp, hsz⟩ := h
  refine ⟨?_, ?_, ?_, ?_⟩
  · simp [addReply, hsplit]
  · rw [show (addReply s reply).accepted = s.accepted from rfl, htaken]
    cases hl : s.conn.replyList with
    | nil =>
      unfold posOk at hp
      rw [hl] at hp
      simp [addReply, front, hl, show s.conn.curRespPos = 0 from hp, Bytes.readMem]
    | cons r rs => simp [addReply, front, hl]
  · unfold posOk at hp ⊢
    cases hl : s.conn.replyList with
    | nil =>
      rw [hl] at hp
      simp only [addReply, hl, List.nil_append]
      rw [show s.conn.curRespPos = 0 from hp]
      exact hpos
    | cons r rs =>
      rw [hl] at hp
      simpa only [addReply, hl, List.cons_append] using hp
  · intro r hr
    rcases List.mem_append.1 hr with hr | hr
    · exact hsz r hr
    · rw [List.mem_singleton.1 hr]
      exact hpos

/-- A write of `k` bytes moves the taken part `k` bytes on. -/
theorem taken_extend (reply : Slice) (pos k : Nat) :
    Bytes.readMem reply.data 0 pos ++ Bytes.readMem reply.data pos k = Bytes.readMem reply.data 0 (pos + k) := by
  rw [Bytes.readMem_add, Nat.zero_add]

/-- **One iteration**: the loop is left, a write fails or takes nothing, it ends the front reply, or it leaves part of
it. -/
theorem iterate_cases {s : St} (now : Nat) {r : SysWrite} (hfit : Fits s (.iter now r)) (hpos : posOk s.conn) :
    (∃ w p t, iterate s now r =
        { s with conn := { s.conn with lastInteractionTime := t }, watching := w, phase := p }) ∨
    (∃ reply rest k, s.conn.replyList = reply :: rest ∧ s.conn.curRespPos + k = reply.size ∧
      iterate s now r = { s with
        accepted := s.accepted ++ Bytes.readMem reply.data s.conn.curRespPos k
        conn := { s.conn with replyList := rest, curRespPos := 0 }
        freed := s.freed ++ [reply] }) ∨
    (∃ reply rest k, s.conn.replyList = reply :: rest ∧ s.conn.curRespPos + k < reply.size ∧
      iterate s now r = { s with
        accepted := s.accepted ++ Bytes.readMem reply.data s.conn.curRespPos k
        conn := { s.conn with curRespPos := s.conn.curRespPos + k } }) := by
  unfold iterate
  unfold posOk at hpos
  cases hl : s.conn.replyList with
  | nil => exact .inl ⟨false, .idle, now, rfl⟩
  | cons reply rest =>
    rw [hl] at hpos
    rcases r with k | _ | _
    · have hk : k ≤ reply.size - s.conn.curRespPos := hfit reply (by rw [hl]; rfl)
      have hval : sockWriteData (.wrote k) = k := rfl
      have hne : ¬ (sockWriteData (.wrote k) = -1) := by
        rw [hval]
        omega
      have hnat : (sockWriteData (.wrote k)).toNat = k := rfl
      simp only [hnat]
      rw [if_neg hne]
      rcases Nat.eq_zero_or_pos k with h0 | h0
      · subst h0
        refine .inr (.inr ⟨reply, rest, 0, rfl, by omega, ?_⟩)
        rfl
      · have hne0 : ¬ (sockWriteData (.wrote k) = 0) := by
          rw [hval]
          omega
        rw [if_neg hne0]
        by_cases hend : reply.size ≤ k + s.conn.curRespPos
        · rw [if_pos hend]
          exact .inr (.inl ⟨reply, rest, k, rfl, by omega, rfl⟩)
        · rw [if_neg hend]
          exact .inr (.inr ⟨reply, rest, k, rfl, by omega, rfl⟩)
    · refine .inl ⟨s.watching, .idle, s.conn.lastInteractionTime, ?_⟩
      simp [sockWriteData, Bytes.readMem]
    · refine .inl ⟨s.watching, s.phase, s.conn.lastInteractionTime, ?_⟩
      simp [sockWriteData, Bytes.readMem]

theorem inv_iterate {s : St} {now : Nat} {r : SysWrite} (h : Inv s) (hfit : Fits s (.iter now r)) :
    Inv (iterate s now r) := by
  obtain ⟨hsplit, htaken, hp, hsz⟩ := h
  rcases iterate_cases now hfit hp with ⟨w, p, t, he⟩ | ⟨reply, rest, k, hl, hk, he⟩ | ⟨reply, rest, k, hl, hk, he⟩
  · rw [he]
    exact ⟨hsplit, htaken, hp, hsz⟩
  · rw [he]
    rw [hl] at hsz hsplit
    have hfront : front s.conn = Bytes.readMem reply.data 0 s.conn.curRespPos := by simp [front, hl]
    have hnext : front { s.conn with replyList := rest, curRespPos := 0 } = [] := by
      unfold front
      cases rest <;> simp [Bytes.readMem]
    refine ⟨?_, ?_, ?_, fun q hq => hsz q (List.mem_cons_of_mem _ hq)⟩
    · simp [hsplit]
    · simp only [hnext]
      rw [htaken, hfront, List.append_assoc, taken_extend, hk, List.flatMap_append, ← Slice.bytes_eq]
      simp
    · unfold posOk
      cases hr : rest with
      | nil => rfl
      | cons q qs => exact hsz q (by simp [hr])
  · rw [he]
    have hfront : front s.conn = Bytes.readMem reply.data 0 s.conn.curRespPos := by simp [front, hl]
    refine ⟨hsplit, ?_, ?_, hsz⟩
    · simp only [front, hl]
      rw [htaken, hfront, List.append_assoc, taken_extend]
    · simpa only [posOk, hl] using hk

/-- **One step keeps the invariant.** -/
theorem inv_step {s s' : St} {l : Label} (h : Inv s) (hfit : Fits s l) (hstep : step s l = some s') : Inv s' := by
  cases l with
  | addReply reply =>
    simp only [step] at hstep
    split at hstep
    · cases hstep
      exact inv_addReply h hfit
    · cases hstep
  | writeReply conns fd =>
    simp only [step] at hstep
    split at hstep
    · split at hstep
      · cases hstep
        exact ⟨h.split, h.taken, h.pos, h.sizes⟩
      · cases hstep
        exact h
    · cases hstep
  | iter now r =>
    simp only [step] at hstep
    split at hstep
    · cases hstep
      exact inv_iterate h hfit
    · cases hstep

theorem inv_init (self : Addr) (fd : Int) : Inv (init self fd) :=
  ⟨rfl, rfl, rfl, fun _ hr => by cases hr⟩

/-- What is left to send starts where the front reply was left. -/
theorem front_append_drop {c : TcpConnection} (hp : posOk c) :
    front c ++ (c.replyList.flatMap Slice.bytes).drop c.curRespPos = c.replyList.flatMap Slice.bytes := by
  unfold posOk at hp
  unfold front
  cases hl : c.replyList with
  | nil => simp
  | cons reply rest =>
    rw [hl] at hp
    have hpos : c.curRespPos < reply.size := hp
    have hsplit : reply.bytes = Bytes.readMem reply.data 0 c.curRespPos ++
        Bytes.readMem reply.data c.curRespPos (reply.size - c.curRespPos) := by
      rw [taken_extend, Slice.bytes_eq]
      congr 1
      omega
    simp only [List.flatMap_cons]
    rw [hsplit, List.append_assoc, List.drop_left' (Bytes.length_readMem _ _ _)]

/-- **No reply byte is lost, doubled or reordered**: in every state a connection can reach, inside the write loop too,
the bytes accepted and the bytes still queued make up the replies added, the position is inside the front reply, and
the buffers released are the first ones added, every byte of them accepted. -/
theorem reply_bytes_in_order (self : Addr) (fd : Int) (s : St) (h : Lts.Via step Fits (init self fd) s) :
    s.accepted ++ (s.conn.replyList.flatMap Slice.bytes).drop s.conn.curRespPos = s.added.flatMap Slice.bytes ∧
    (s.conn.replyList = [] → s.conn.curRespPos = 0) ∧
    (∀ reply rest, s.conn.replyList = reply :: rest → s.conn.curRespPos < reply.size) ∧
    s.added = s.freed ++ s.conn.replyList ∧ s.freed.flatMap Slice.bytes <+: s.accepted := by
  have hinv : Inv s := h.invariant (inv_init self fd) (fun _ _ _ hi hok hs => inv_step hi hok hs)
  refine ⟨?_, ?_, ?_, hinv.split, ?_⟩
  · rw [hinv.taken, List.append_assoc, front_append_drop hinv.pos, hinv.split, List.flatMap_append]
  · intro hl
    simpa only [posOk, hl] using hinv.pos
  · intro reply rest hl
    simpa only [posOk, hl] using hinv.pos
  · rw [hinv.taken]
    exact List.prefix_append _ _

/-- Two replies of three bytes each; the first goes out in two pieces with an `EAGAIN` between them. -/
def twoReplies : List Label :=
  [.addReply ⟨fun i => UInt8.ofNat i, 3⟩, .addReply ⟨fun _ => 9, 3⟩, .writeReply [none, some 7] 1, .iter 5 (.wrote 2),
    .iter 5 (.err true), .iter 5 (.wrote 1), .iter 5 (.wrote 2)]

theorem reply_bytes_in_order_twoReplies : ∃ s, Lts.run (Lts.guarded Fits step) (init 7 1) twoReplies = some s ∧
    s.accepted = [0, 1, 2, 9, 9] ∧ s.freed.length = 1 ∧
    s.accepted ++ (s.conn.replyList.flatMap Slice.bytes).drop s.conn.curRespPos = s.added.flatMap Slice.bytes := by
  have hsome : (Lts.run (Lts.guarded Fits step) (init 7 1) twoReplies).isSome = true := by decide
  obtain ⟨s, hs⟩ := Option.isSome_iff_exists.1 hsome
  have hend : (Lts.run (Lts.guarded Fits step) (init 7 1) twoReplies).map (fun s => (s.accepted, s.freed.length)) =
      some ([0, 1, 2, 9, 9], 1) := by decide
  rw [hs, Option.map_some, Option.some.injEq, Prod.mk.injEq] at hend
  exact ⟨s, hs, hend.1, hend.2, (reply_bytes_in_order 7 1 s (Lts.Via.of_run .start hs)).1⟩

end WriteReply
end Xrtc
