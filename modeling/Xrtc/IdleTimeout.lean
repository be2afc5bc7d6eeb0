import Xrtc.ConnTable
/-!
# IdleTimeout — when `process_timeout` closes a connection

One connection with its callbacks: `read_query`, `_add_reply`, `_write_reply` and the timer.  Every callback sees its own
reading of the loop's clock, any `unsigned long`.  `stored` is the reading of the last `new_conn`, `read_query` or
drained `_write_reply`; `ticks` is the history of the timer.
-/
namespace Xrtc
namespace IdleTimeout

/-- The test of `process_timeout`. -/
def timedOut (timeout : Nat) (c : TcpConnection) (now : Nat) : Bool :=
  decide (timeout ≤ (now + 2 ^ 64 - c.lastInteractionTime) % 2 ^ 64)

/-- It is the test the table's timer callback makes. -/
theorem connTimerCb_eq {ns : Nat} (timeout : Nat) (s : ConnTable.St ns) (e : ConnTable.TimerEntry ns) (now : Nat)
    {c : ConnTable.Conn} (h : s.heap e.conn = some c) : ConnTable.connTimerCb timeout s e now =
      if timedOut timeout c.tcp now = true then ConnTable.closeConn s e.loop e.conn c else s := by
  simp only [ConnTable.connTimerCb, h, timedOut, decide_eq_true_eq]

/-- One firing of the timer: the reading stored before, the reading at the tick, and whether it closed. -/
structure Tick where
  stored : UInt64
  now : UInt64
  closed : Bool
  deriving DecidableEq

structure St where
  conn : TcpConnection
  stored : UInt64
  closed : Bool
  ticks : List Tick

inductive Label where
  | read (now : UInt64) (r : Query.SysRead) (outcome : Nat → Int) (fuel : Nat)
  | addReply (reply : Slice)
  | write (now : UInt64) (answers : Nat → WriteReply.SysWrite) (turns : Nat)
  | tick (now : UInt64)

def init (fd : Int) (now : UInt64) : St := ⟨{ fd := fd, lastInteractionTime := now.toNat }, now, false, []⟩

def step (timeout : Nat) (s : St) (l : Label) : Option St :=
  if s.closed = true then none
  else match l with
    | .read now r outcome fuel => match Query.readQuery outcome fuel ⟨s.conn, .idle, []⟩ now.toNat r with
      | none => none
      | some q => some { s with conn := q.conn, stored := now, closed := decide (q.phase = .closed) }
    | .addReply reply => some { s with conn := { s.conn with replyList := s.conn.replyList ++ [reply] } }
    | .write now answers turns =>
      let t := ConnTable.writeLoop 0 s.conn ⟨now.toNat, answers, turns⟩
      -- the list ran empty exactly when the loop left the `WRITE` event stopped
      if t.phase = .idle then some { s with conn := t.conn, stored := if t.watching = true then s.stored else now }
      else none
    | .tick now =>
      let closed := timedOut timeout s.conn now.toNat
      some { s with closed := closed, ticks := s.ticks ++ [⟨s.stored, now, closed⟩] }

/-- **Idle reaping**: every tick closed the connection exactly when its reading was `timeout` or more after the one
stored. -/
def Timely (timeout : Nat) (s : St) : Prop :=
  ∀ t ∈ s.ticks, t.closed = true ↔ t.stored.toNat + timeout ≤ t.now.toNat

/-- The clock has not stepped back behind the stored reading at a tick, or by so much that the difference wraps below the
timeout. -/
def Forward (timeout : Nat) (s : St) : Label → Prop
  | .tick now => s.stored.toNat ≤ now.toNat ∨ now.toNat + 2 ^ 64 < s.stored.toNat + timeout
  | _ => True

instance (timeout : Nat) (s : St) : ∀ l : Label, Decidable (Forward timeout s l)
  | .read _ _ _ _ => .isTrue trivial
  | .addReply _ => .isTrue trivial
  | .write _ _ _ => .isTrue trivial
  | .tick now =>
    inferInstanceAs (Decidable (s.stored.toNat ≤ now.toNat ∨ now.toNat + 2 ^ 64 < s.stored.toNat + timeout))

/-! ## The stored reading is the field -/

theorem iterate_last (outcome : Nat → Int) (s : Query.St) :
    (Query.iterate outcome s).conn.lastInteractionTime = s.conn.lastInteractionTime := by
  unfold Query.iterate
  split
  · split
    · split <;> rfl
    · split <;> rfl
  · rfl

theorem processQueryBuffer_last (outcome : Nat → Int) : ∀ (fuel : Nat) (s q : Query.St),
    Query.processQueryBuffer outcome fuel s = some q → q.conn.lastInteractionTime = s.conn.lastInteractionTime
  | 0, s, q, h => by
    rw [Query.processQueryBuffer] at h
    split at h
    · cases h
    · cases h
      rfl
  | fuel + 1, s, q, h => by
    rw [Query.processQueryBuffer] at h
    split at h
    · rw [processQueryBuffer_last outcome fuel _ q h, iterate_last]
    · cases h
      rfl

theorem readQuery_last {outcome : Nat → Int} {fuel now : Nat} {s q : Query.St} {r : Query.SysRead}
    (h : Query.readQuery outcome fuel s now r = some q) : q.conn.lastInteractionTime = now := by
  unfold Query.readQuery at h
  split at h
  · rw [processQueryBuffer_last outcome fuel _ q h]
    unfold Query.readStep
    split <;> rfl
  · cases h

/-- The write loop stores its reading exactly when it leaves with the event stopped. -/
theorem loop_last (s : WriteReply.St) (hw : s.watching = true) (now : Nat) (answers : Nat → WriteReply.SysWrite) :
    ∀ turns, (WriteReply.loop s now answers turns).conn.lastInteractionTime =
        if (WriteReply.loop s now answers turns).watching = true then s.conn.lastInteractionTime else now
  | 0 => by
    rw [WriteReply.loop, if_pos hw]
  | turns + 1 => by
    have ih := loop_last s hw now answers turns
    rw [WriteReply.loop]
    generalize WriteReply.loop s now answers turns = t at ih ⊢
    split
    · unfold WriteReply.iterate
      split
      · simp
      · simp only
        split
        · exact ih
        · split
          · exact ih
          · split <;> exact ih
    · exact ih

theorem writeLoop_last (a : Addr) (c : TcpConnection) (wr : ConnTable.WriteAct) :
    (ConnTable.writeLoop a c wr).conn.lastInteractionTime =
      if (ConnTable.writeLoop a c wr).watching = true then c.lastInteractionTime else wr.now :=
  loop_last ⟨a, c, true, .writing, [], [], []⟩ rfl wr.now wr.answers wr.turns

theorem stored_step {timeout : Nat} {s s' : St} {l : Label} (hi : s.conn.lastInteractionTime = s.stored.toNat)
    (h : step timeout s l = some s') : s'.conn.lastInteractionTime = s'.stored.toNat := by
  unfold step at h
  split at h
  · cases h
  · cases l with
    | read now r outcome fuel =>
      simp only at h
      split at h
      · cases h
      · rename_i q hq
        cases h
        exact readQuery_last hq
    | addReply reply =>
      cases h
      exact hi
    | write now answers turns =>
      simp only at h
      split at h
      · cases h
        rw [writeLoop_last, hi, apply_ite UInt64.toNat]
      · cases h
    | tick now =>
      cases h
      exact hi

theorem timedOut_iff {timeout : Nat} {c : TcpConnection} {stored now : UInt64}
    (hlast : c.lastInteractionTime = stored.toNat) :
    (timedOut timeout c now.toNat = true ↔ stored.toNat + timeout ≤ now.toNat) ↔
      stored.toNat ≤ now.toNat ∨ now.toNat + 2 ^ 64 < stored.toNat + timeout := by
  have hs := stored.toNat_lt
  have hn := now.toNat_lt
  simp only [timedOut, decide_eq_true_eq, hlast]
  by_cases hle : stored.toNat ≤ now.toNat
  · have hmod : (now.toNat + 2 ^ 64 - stored.toNat) % 2 ^ 64 = now.toNat - stored.toNat := by omega
    rw [hmod]
    omega
  · -- the difference has wrapped
    have hmod : (now.toNat + 2 ^ 64 - stored.toNat) % 2 ^ 64 = now.toNat + 2 ^ 64 - stored.toNat := by omega
    rw [hmod]
    omega

theorem timely_step {timeout : Nat} {s s' : St} {l : Label} (hi : s.conn.lastInteractionTime = s.stored.toNat)
    (ht : Timely timeout s) (hok : Forward timeout s l) (h : step timeout s l = some s') : Timely timeout s' := by
  unfold step at h
  split at h
  · cases h
  · cases l with
    | read now r outcome fuel =>
      simp only at h
      split at h
      · cases h
      · cases h
        exact ht
    | addReply reply =>
      cases h
      exact ht
    | write now answers turns =>
      simp only at h
      split at h
      · cases h
        exact ht
      · cases h
    | tick now =>
      cases h
      intro t hmem
      rcases List.mem_append.1 hmem with hmem | hmem
      · exact ht t hmem
      · rw [List.mem_singleton.1 hmem]
        exact (timedOut_iff hi).2 hok

/-- **Idle reaping is right in every run whose ticks never see the clock stepped back**, and a tick that sees it stepped
back goes wrong. -/
theorem idle_reaping (timeout : Nat) (fd : Int) (now₀ : UInt64) :
    (∀ s, Lts.Via (step timeout) (Forward timeout) (init fd now₀) s → Timely timeout s) ∧
    ∀ s l s', Lts.Via (step timeout) (Forward timeout) (init fd now₀) s → ¬Forward timeout s l →
      step timeout s l = some s' → ¬Timely timeout s' := by
  have hinv : ∀ s, Lts.Via (step timeout) (Forward timeout) (init fd now₀) s →
      s.conn.lastInteractionTime = s.stored.toNat ∧ Timely timeout s := by
    intro s h
    refine Lts.Via.invariant (I := fun s => s.conn.lastInteractionTime = s.stored.toNat ∧ Timely timeout s) ?_ ?_ h
    · refine ⟨rfl, fun t ht => ?_⟩
      cases ht
    · intro s l s' hi hok hs
      exact ⟨stored_step hi.1 hs, timely_step hi.1 hi.2 hok hs⟩
  refine ⟨fun s h => (hinv s h).2, ?_⟩
  intro s l s' h hok hs htimely
  cases l with
  | read now r outcome fuel => exact hok trivial
  | addReply reply => exact hok trivial
  | write now answers turns => exact hok trivial
  | tick now =>
    unfold step at hs
    split at hs
    · cases hs
    · cases hs
      refine hok ((timedOut_iff (hinv s h).1).1 ?_)
      exact htimely _ (List.mem_append_right _ (List.mem_singleton.2 rfl))

/-- A read at 1000, then ticks at 1500 and 2100. -/
def readThenIdle : List Label :=
  [.read 1000 (.bytes [1]) (fun _ => 0) 2, .tick 1500, .tick 2100]

theorem idle_reaping_readThenIdle : ∃ s,
    Lts.run (Lts.guarded (Forward 1000) (step 1000)) (init 7 0) readThenIdle = some s ∧
    s.ticks = [⟨1000, 1500, false⟩, ⟨1000, 2100, true⟩] ∧ Timely 1000 s := by
  have hend : (Lts.run (Lts.guarded (Forward 1000) (step 1000)) (init 7 0) readThenIdle).map (fun s => s.ticks) =
      some [⟨1000, 1500, false⟩, ⟨1000, 2100, true⟩] := by decide
  obtain ⟨s, hs, hticks⟩ := Option.map_eq_some_iff.1 hend
  exact ⟨s, hs, hticks, (idle_reaping 1000 7 0).1 s (Lts.Via.of_run .start hs)⟩

theorem clock_step_back_closes : ¬ ∀ (timeout : Nat) (fd : Int) (now₀ : UInt64) (s : St),
    Lts.Reachable (step timeout) (init fd now₀) s → Timely timeout s := by
  intro hall
  have hend : (Lts.run (step 60000000) (init 7 1000000) [.tick 999999]).map (fun s => s.ticks) =
      some [⟨1000000, 999999, true⟩] := by decide
  obtain ⟨s, hs, hticks⟩ := Option.map_eq_some_iff.1 hend
  have htimely := hall 60000000 7 1000000 s (Lts.Reachable.of_run hs) ⟨1000000, 999999, true⟩ (by simp [hticks])
  exact absurd (htimely.1 rfl) (by decide)

end IdleTimeout
end Xrtc
