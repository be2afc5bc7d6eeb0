import Mathlib.Algebra.GroupWithZero.Nat
import Xrtc.WriteReply
/-!
# WriteLoop — when one `_write_reply` call returns

The while loop of `_write_reply` against an endless sequence of answers of `write(2)`.  `sock_write_data` turns `EAGAIN`
into 0, and a 0 neither moves the position nor leaves the loop: the call comes back exactly when the socket takes
everything that is pending, or fails for good.
-/
namespace Xrtc
namespace WriteReply

/-- The state after `n` turns of the loop; each turn makes at most one `sock_write_data` call, the `n`-th of them
answered by `σ n`. -/
def loop (s : St) (now : Nat) (σ : Nat → SysWrite) : Nat → St
  | 0 => s
  | n + 1 =>
    let t := loop s now σ n
    if t.phase = .writing then iterate t now (σ n) else t

/-- The call returns to the event loop after finitely many turns. -/
def Returns (s : St) (now : Nat) (σ : Nat → SysWrite) : Prop := ∃ n, (loop s now σ n).phase = .idle

/-- The answers `σ` are answers of `write(2)`: as long as the loop asks, it takes no more than it was given. -/
def Answers (s : St) (now : Nat) (σ : Nat → SysWrite) : Prop :=
  ∀ n, (loop s now σ n).phase = .writing → Fits (loop s now σ n) (.iter now (σ n))

def taken : SysWrite → Nat
  | .wrote k => k
  | .err _ => 0

/-- The bytes the first `n` answers take. -/
def takenBy (σ : Nat → SysWrite) : Nat → Nat
  | 0 => 0
  | n + 1 => takenBy σ n + taken (σ n)

/-- The bytes of the queued replies that are still to be sent. -/
def pending (c : TcpConnection) : Nat := (c.replyList.map Slice.size).sum - c.curRespPos

/-- **One turn of the loop**: it is left because nothing is queued, or by a failed write; or it goes on, with the bytes
just taken no longer pending. -/
theorem turn_cases {s : St} {now : Nat} {r : SysWrite} (hw : s.phase = .writing) (hfit : Fits s (.iter now r))
    (hpos : posOk s.conn) :
    (s.conn.replyList = [] ∧ (iterate s now r).phase = .idle) ∨
    (r = .err false ∧ (iterate s now r).phase = .idle) ∨
    (s.conn.replyList ≠ [] ∧ r ≠ .err false ∧ (iterate s now r).phase = .writing ∧
      pending (iterate s now r).conn + taken r = pending s.conn) := by
  unfold posOk at hpos
  unfold iterate
  cases hl : s.conn.replyList with
  | nil => exact .inl ⟨rfl, rfl⟩
  | cons reply rest =>
    rw [hl] at hpos
    have hpend : pending s.conn = reply.size + (rest.map Slice.size).sum - s.conn.curRespPos := by
      simp only [pending, hl, List.map_cons, List.sum_cons]
    rcases r with k | _ | _
    · have hk : k ≤ reply.size - s.conn.curRespPos := hfit reply (by rw [hl]; rfl)
      have hval : sockWriteData (.wrote k) = k := rfl
      have hne : ¬ (k : Int) = -1 := by omega
      refine .inr (.inr ⟨by simp, by simp, ?_⟩)
      simp only [hval, Int.toNat_natCast]
      rw [if_neg hne]
      by_cases h0 : (k : Int) = 0
      · rw [if_pos h0]
        refine ⟨hw, ?_⟩
        simp only [taken]
        omega
      · rw [if_neg h0]
        by_cases hend : reply.size ≤ k + s.conn.curRespPos
        · rw [if_pos hend]
          refine ⟨hw, ?_⟩
          simp only [pending, taken]
          simp only [pending] at hpend
          omega
        · rw [if_neg hend]
          refine ⟨hw, ?_⟩
          simp only [pending, taken, hl, List.map_cons, List.sum_cons]
          simp only [pending, hl, List.map_cons, List.sum_cons] at hpend
          omega
    · exact .inr (.inl ⟨rfl, by simp [sockWriteData]⟩)
    · refine .inr (.inr ⟨by simp, by simp, ?_, ?_⟩)
      · simpa [sockWriteData] using hw
      · simp [sockWriteData, taken]

variable {s : St} {now : Nat} {σ : Nat → SysWrite}

theorem loop_succ_of_writing {n : Nat} (h : (loop s now σ n).phase = .writing) :
    loop s now σ (n + 1) = iterate (loop s now σ n) now (σ n) := by
  simp only [loop, h, if_true]

theorem loop_idle_mono {n : Nat} (h : (loop s now σ n).phase = .idle) :
    ∀ k, (loop s now σ (n + k)).phase = .idle
  | 0 => h
  | k + 1 => by
    have ih := loop_idle_mono h k
    have hne : ¬ (loop s now σ (n + k)).phase = .writing := by rw [ih]; decide
    rw [← Nat.add_assoc, loop]
    simp only [if_neg hne]
    exact ih

/-- **As long as the loop goes on**, the invariant holds, no answer was a failed write, and what is pending is what was
pending at first less what the answers took. -/
theorem loop_writing (hinv : Inv s) (hσ : Answers s now σ) :
    ∀ n, (loop s now σ n).phase = .writing → Inv (loop s now σ n) ∧ (∀ m < n, σ m ≠ .err false) ∧
      pending (loop s now σ n).conn + takenBy σ n = pending s.conn
  | 0, _ => ⟨hinv, fun m hm => absurd hm (Nat.not_lt_zero m), rfl⟩
  | n + 1, hw => by
    have hwn : (loop s now σ n).phase = .writing := by
      by_contra hne
      have hidle : (loop s now σ n).phase = .idle := by
        cases hp : (loop s now σ n).phase with
        | idle => rfl
        | writing => exact absurd hp hne
      rw [loop_idle_mono hidle 1] at hw
      cases hw
    obtain ⟨hi, herr, hpend⟩ := loop_writing hinv hσ n hwn
    have hfit := hσ n hwn
    have hnext := loop_succ_of_writing hwn
    rw [hnext] at hw ⊢
    rcases turn_cases hwn hfit hi.pos with ⟨-, hidle⟩ | ⟨-, hidle⟩ | ⟨-, hne, -, htook⟩
    · rw [hidle] at hw; cases hw
    · rw [hidle] at hw; cases hw
    · refine ⟨inv_iterate hi hfit, ?_, ?_⟩
      · intro m hm
        rcases Nat.lt_succ_iff_lt_or_eq.1 hm with hlt | heq
        · exact herr m hlt
        · rw [heq]
          exact hne
      · simp only [takenBy]
        omega

/-- With every reply pending at least one byte, nothing pending means nothing queued. -/
theorem replyList_eq_nil_of_pending (hi : Inv s) (h : pending s.conn = 0) : s.conn.replyList = [] := by
  cases hl : s.conn.replyList with
  | nil => rfl
  | cons reply rest =>
    have hpos := hi.pos
    simp only [posOk, hl] at hpos
    simp only [pending, hl, List.map_cons, List.sum_cons] at h
    omega

/-- The condition: some answer is a failed write, or the answers take everything that is pending. -/
def Drains (s : St) (σ : Nat → SysWrite) : Prop :=
  ∃ n, σ n = .err false ∨ pending s.conn ≤ takenBy σ n

theorem drains_of_returns (hinv : Inv s) (hw : s.phase = .writing) (hσ : Answers s now σ)
    (h : Returns s now σ) : Drains s σ := by
  obtain ⟨n, hn⟩ := h
  -- the turn that leaves the loop is the first one after which it is idle
  induction n with
  | zero =>
    simp only [loop] at hn
    rw [hw] at hn
    cases hn
  | succ n ih =>
    cases hp : (loop s now σ n).phase with
    | idle => exact ih hp
    | writing =>
      obtain ⟨hi, -, hpend⟩ := loop_writing hinv hσ n hp
      rcases turn_cases hp (hσ n hp) hi.pos with ⟨hl, -⟩ | ⟨herr, -⟩ | ⟨-, -, hgo, -⟩
      · have h0 : pending (loop s now σ n).conn = 0 := by simp [pending, hl]
        exact ⟨n, .inr (by omega)⟩
      · exact ⟨n, .inl herr⟩
      · rw [loop_succ_of_writing hp, hgo] at hn
        cases hn

theorem returns_of_drains (hinv : Inv s) (hσ : Answers s now σ) (h : Drains s σ) : Returns s now σ := by
  by_contra hnever
  have hall : ∀ n, (loop s now σ n).phase = .writing := by
    intro n
    cases hp : (loop s now σ n).phase with
    | idle => exact absurd ⟨n, hp⟩ hnever
    | writing => rfl
  obtain ⟨n, herr | htook⟩ := h
  · exact (loop_writing hinv hσ (n + 1) (hall (n + 1))).2.1 n (Nat.lt_succ_self n) herr
  · obtain ⟨hi, -, hpend⟩ := loop_writing hinv hσ n (hall n)
    have hl := replyList_eq_nil_of_pending hi (by omega)
    rcases turn_cases (hall n) (hσ n (hall n)) hi.pos with ⟨-, hidle⟩ | ⟨-, hidle⟩ | ⟨hne, -⟩
    · exact hnever ⟨n + 1, by rw [loop_succ_of_writing (hall n)]; exact hidle⟩
    · exact hnever ⟨n + 1, by rw [loop_succ_of_writing (hall n)]; exact hidle⟩
    · exact hne hl

/-- **When the reply writer returns**: in every state in which a connection's `_write_reply` is inside its loop, against
every sequence of answers of `write(2)`, the call returns exactly when some answer is a failure other than `EAGAIN`, or
the socket takes as many bytes as are pending. -/
theorem write_reply_returns (self : Addr) (fd : Int) (s : St) (h : Lts.Via step Fits (init self fd) s)
    (hw : s.phase = .writing) (now : Nat) (σ : Nat → SysWrite) (hσ : Answers s now σ) :
    Returns s now σ ↔ Drains s σ := by
  have hinv : Inv s := h.invariant (inv_init self fd) (fun _ _ _ hi hok hs => inv_step hi hok hs)
  exact ⟨drains_of_returns hinv hw hσ, returns_of_drains hinv hσ⟩

/-- One reply of three bytes on the connection at address 7, and its write callback. -/
def oneReply : List Label := [.addReply ⟨fun i => UInt8.ofNat i, 3⟩, .writeReply [none, some 7] 1]

/-- The state in which that callback enters its loop. -/
def oneReplyLoop : St :=
  ⟨7, { fd := 1, replyList := [⟨fun i => UInt8.ofNat i, 3⟩] }, true, .writing, [⟨fun i => UInt8.ofNat i, 3⟩], [], []⟩

theorem run_oneReply : Lts.run (Lts.guarded Fits step) (init 7 1) oneReply = some oneReplyLoop := rfl

/-- Two bytes, one `EAGAIN`, then the last byte: the call returns. -/
def threeWrites : Nat → SysWrite
  | 0 => .wrote 2
  | 1 => .err true
  | _ => .wrote 1

theorem write_reply_returns_threeWrites : Returns oneReplyLoop 5 threeWrites := by
  refine (write_reply_returns 7 1 oneReplyLoop (Lts.Via.of_run .start run_oneReply) rfl 5 threeWrites ?_).2
    ⟨3, .inr (by decide)⟩
  intro n hn
  match n, hn with
  | 0, _ => decide
  | 1, _ => decide
  | 2, _ => decide
  | 3, _ => decide
  | n + 4, hn =>
    have hidle : (loop oneReplyLoop 5 threeWrites 4).phase = .idle := by decide
    rw [Nat.add_comm, loop_idle_mono hidle n] at hn
    cases hn

theorem iterate_eagain {s : St} (now : Nat) (hl : s.conn.replyList ≠ []) : iterate s now (.err true) = s := by
  unfold iterate
  cases hl' : s.conn.replyList with
  | nil => exact absurd hl' hl
  | cons reply rest => simp [sockWriteData, Bytes.readMem]

/-- **A peer that does not read holds the worker's thread**: against `EAGAIN` for ever the call never returns. -/
theorem write_reply_spins_on_eagain :
    Lts.Via step Fits (init 7 1) oneReplyLoop ∧ oneReplyLoop.phase = .writing ∧
      Answers oneReplyLoop 5 (fun _ => .err true) ∧ ¬ Returns oneReplyLoop 5 (fun _ => .err true) := by
  have hstay : ∀ n, loop oneReplyLoop 5 (fun _ => .err true) n = oneReplyLoop := by
    intro n
    induction n with
    | zero => rfl
    | succ n ih =>
      simp only [loop, ih]
      exact iterate_eagain (s := oneReplyLoop) 5 (List.cons_ne_nil _ _)
  refine ⟨Lts.Via.of_run .start run_oneReply, rfl, fun n _ => trivial, ?_⟩
  rintro ⟨n, hn⟩
  rw [hstay n] at hn
  cases hn

end WriteReply
end Xrtc
