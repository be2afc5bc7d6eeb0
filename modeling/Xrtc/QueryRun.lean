import Xrtc.Query
/-!
# QueryRun — what one connection's state can be

The buffer is always the bytes received so far, and the parser is in one of four places (`Shape`): waiting for a header,
waiting for a body, or past one or more `process_request_` calls, with or without the success marker.  `step_shape` is
the one case analysis of `process_query_buffer`; everything said about a connection follows from it.
-/
namespace Xrtc
namespace Query

variable {outcome : Nat → Int}

/-- The read results among the labels of a run. -/
def readsOf (ls : List Label) : List SysRead :=
  ls.filterMap (fun l => match l with | .read _ r => some r | .iter => none)

def received (rs : List SysRead) : List UInt8 := rs.flatMap (fun r => (sockReadData r).getD [])

def bodyLenOf (buf : List UInt8) : Nat := (xheadAt buf).bodyLen.toNat

/-- A header with the right magic is in. -/
def headIn (buf : List UInt8) : Prop := headerSize ≤ buf.length ∧ (xheadAt buf).magicNum = headerMagic

/-- A whole frame is in: a header with the right magic and the body it announces. -/
def frameIn (buf : List UInt8) : Prop := headIn buf ∧ headerSize + bodyLenOf buf ≤ buf.length

instance (buf : List UInt8) : Decidable (headIn buf) := inferInstanceAs (Decidable (_ ∧ _))
instance (buf : List UInt8) : Decidable (frameIn buf) := inferInstanceAs (Decidable (_ ∧ _))

theorem readsOf_append (ls ms : List Label) : readsOf (ls ++ ms) = readsOf ls ++ readsOf ms := List.filterMap_append

theorem received_append (rs qs : List SysRead) : received (rs ++ qs) = received rs ++ received qs :=
  List.flatMap_append

theorem headIn_append {a : List UInt8} (b : List UInt8) (h : headIn a) : headIn (a ++ b) := by
  refine ⟨?_, ?_⟩
  · have := h.1
    rw [List.length_append]
    omega
  · rw [xheadAt_append h.1]
    exact h.2

theorem bodyLenOf_append {a : List UInt8} (b : List UInt8) (h : headIn a) : bodyLenOf (a ++ b) = bodyLenOf a := by
  unfold bodyLenOf
  rw [xheadAt_append h.1]

theorem frameIn_append {a : List UInt8} (b : List UInt8) (h : frameIn a) : frameIn (a ++ b) := by
  refine ⟨headIn_append b h.1, ?_⟩
  have := h.2
  rw [bodyLenOf_append b h.1, List.length_append]
  omega

/-- The places the parser can be in, for the bytes received so far and the number of calls made. -/
inductive Shape (outcome : Nat → Int) (buf : List UInt8) (n : Nat) (c : TcpConnection) : Prop
  | head (hs : c.currentState = .head) (he : c.bytesExpected = headerSize) (hp : c.bytesProcessed = 0) (hn : n = 0)
  | body (hs : c.currentState = .body) (hh : headIn buf) (he : c.bytesExpected = bodyLenOf buf)
      (hp : c.bytesProcessed = headerSize) (hn : n = 0)
  | failed (hs : c.currentState = .body) (hf : frameIn buf) (he : c.bytesExpected = bodyLenOf buf)
      (hp : c.bytesProcessed = headerSize) (hn : 0 < n) (ho : outcome (n - 1) < 0)
  | served (hs : c.currentState = .body) (hf : frameIn buf) (he : c.bytesExpected = bodyLenOf buf)
      (hp : c.bytesProcessed = doneMark) (hn : 0 < n) (ho : ∃ k, k < n ∧ 0 ≤ outcome k)

/-- The state of a connection that has received `buf`: back in the event loop, a whole frame has been handed over. -/
structure Inv (outcome : Nat → Int) (buf : List UInt8) (s : St) : Prop where
  querybuf : s.conn.querybuf = buf
  shape : Shape outcome buf s.calls.length s.conn
  handed : s.phase = .idle → frameIn buf → 0 < s.calls.length

theorem Shape.append {a : List UInt8} {n : Nat} {c c' : TcpConnection} (b : List UInt8)
    (h : Shape outcome a n c) (hs : c'.currentState = c.currentState)
    (he : c'.bytesExpected = c.bytesExpected) (hp : c'.bytesProcessed = c.bytesProcessed) :
    Shape outcome (a ++ b) n c' := by
  cases h with
  | head h1 h2 h3 h4 => exact .head (hs.trans h1) (he.trans h2) (hp.trans h3) h4
  | body h1 h2 h3 h4 h5 =>
    exact .body (hs.trans h1) (headIn_append b h2) (by rw [he, h3, bodyLenOf_append b h2]) (hp.trans h4) h5
  | failed h1 h2 h3 h4 h5 h6 =>
    exact .failed (hs.trans h1) (frameIn_append b h2) (by rw [he, h3, bodyLenOf_append b h2.1]) (hp.trans h4) h5 h6
  | served h1 h2 h3 h4 h5 h6 =>
    exact .served (hs.trans h1) (frameIn_append b h2) (by rw [he, h3, bodyLenOf_append b h2.1]) (hp.trans h4) h5 h6

/-! ## One iteration -/

section Iterate
variable (outcome) {s : St} {buf : List UInt8}

/-- What an iteration does with a header: nothing yet, refuse it, or move on to the body. -/
theorem iterate_head (hb : s.conn.querybuf = buf) (hs : s.conn.currentState = .head)
    (he : s.conn.bytesExpected = headerSize) (hp : s.conn.bytesProcessed = 0) :
    iterate outcome s =
      if headIn buf then { s with conn := { s.conn with
          bytesProcessed := headerSize, bytesExpected := bodyLenOf buf, currentState := .body } }
      else { s with phase := .idle } := by
  subst hb
  unfold iterate loopCond
  rw [he, hp, hs]
  by_cases hl : headerSize ≤ s.conn.querybuf.length
  · by_cases hm : (xheadAt s.conn.querybuf).magicNum = headerMagic
    · simp [headIn, hl, hm, bodyLenOf]
    · simp [headIn, hl, hm]
  · simp [headIn, hl]

/-- What an iteration does in `STATE_BODY`: leave, call and leave, or call and mark. -/
theorem iterate_body (hb : s.conn.querybuf = buf) (hs : s.conn.currentState = .body)
    (he : s.conn.bytesExpected = bodyLenOf buf) :
    iterate outcome s =
      if bodyLenOf buf + s.conn.bytesProcessed ≤ buf.length then
        if outcome s.calls.length < 0 then { s with phase := .idle, calls := s.calls ++ [callOf s.conn] }
        else { s with conn := { s.conn with bytesProcessed := doneMark }, calls := s.calls ++ [callOf s.conn] }
      else { s with phase := .idle } := by
  subst hb
  unfold iterate loopCond
  rw [he, hs]
  simp only [decide_eq_true_eq]

end Iterate

/-- **One iteration keeps the shape**, and makes a call only when the whole frame is in. -/
theorem iterate_shape {s : St} {buf : List UInt8} (h : Inv outcome buf s) (hl : s.phase = .looping) :
    Inv outcome buf (iterate outcome s) := by
  obtain ⟨hb, hshape, -⟩ := h
  have hcall : ∀ (hs : s.conn.currentState = .body) (hh : headIn buf) (he : s.conn.bytesExpected = bodyLenOf buf)
      (hp : headerSize ≤ s.conn.bytesProcessed) (hno : Shape outcome buf s.calls.length s.conn),
      Inv outcome buf (iterate outcome s) := by
    intro hs hh he hp hno
    rw [iterate_body outcome hb hs he]
    by_cases hc : bodyLenOf buf + s.conn.bytesProcessed ≤ buf.length
    · have hf : frameIn buf := ⟨hh, by omega⟩
      rw [if_pos hc]
      by_cases ho : outcome s.calls.length < 0
      · rw [if_pos ho]
        refine ⟨hb, ?_, fun _ _ => by simp⟩
        cases hno with
        | head h1 => rw [h1] at hs; cases hs
        | body _ _ _ h4 => exact .failed hs hf he h4 (by simp) (by simpa using ho)
        | failed _ _ _ h4 => exact .failed hs hf he h4 (by simp) (by simpa using ho)
        | served _ _ _ h4 _ h6 =>
          obtain ⟨k, hk, hok⟩ := h6
          exact .served hs hf he h4 (by simp) ⟨k, by rw [List.length_append]; omega, hok⟩
      · rw [if_neg ho]
        exact ⟨hb, .served hs hf he rfl (by simp) ⟨s.calls.length, by simp, by omega⟩, fun _ _ => by simp⟩
    · rw [if_neg hc]
      refine ⟨hb, hno, fun _ hf => ?_⟩
      cases hno with
      | head h1 => rw [h1] at hs; cases hs
      | body _ _ _ h4 =>
        have := hf.2
        rw [h4] at hc
        omega
      | failed _ _ _ _ h5 => exact h5
      | served _ _ _ _ h5 => exact h5
  cases hshape with
  | head h1 h2 h3 h4 =>
    rw [iterate_head outcome hb h1 h2 h3]
    by_cases hh : headIn buf
    · rw [if_pos hh]
      exact ⟨hb, .body rfl hh rfl rfl h4, fun hi => by rw [show s.phase = .looping from hl] at hi; cases hi⟩
    · rw [if_neg hh]
      exact ⟨hb, .head h1 h2 h3 h4, fun _ hf => absurd hf.1 hh⟩
  | body h1 h2 h3 h4 h5 => exact hcall h1 h2 h3 (by omega) (.body h1 h2 h3 h4 h5)
  | failed h1 h2 h3 h4 h5 h6 => exact hcall h1 h2.1 h3 (by omega) (.failed h1 h2 h3 h4 h5 h6)
  | served h1 h2 h3 h4 h5 h6 =>
    exact hcall h1 h2.1 h3 (by rw [h4]; decide) (.served h1 h2 h3 h4 h5 h6)

/-- **One step keeps the shape**: a read appends what it brought, an iteration leaves the buffer alone. -/
theorem step_shape {s s' : St} {rs : List SysRead} {l : Label} (h : Inv outcome (received rs) s)
    (hstep : step outcome s l = some s') : Inv outcome (received (rs ++ readsOf [l])) s' := by
  cases l with
  | read now r =>
    simp only [step] at hstep
    split at hstep
    · simp only [Option.some.injEq] at hstep
      subst hstep
      have hr : received (rs ++ readsOf [.read now r]) = received rs ++ (sockReadData r).getD [] := by
        rw [received_append]
        simp [readsOf, received]
      rw [hr]
      unfold readStep
      cases hd : sockReadData r with
      | none =>
        rw [Option.getD_none, List.append_nil]
        refine ⟨h.querybuf, ?_, fun hi => by cases hi⟩
        have happ : Shape outcome (received rs ++ []) s.calls.length { s.conn with lastInteractionTime := now } :=
          h.shape.append [] rfl rfl rfl
        rwa [List.append_nil] at happ
      | some bs =>
        rw [Option.getD_some]
        exact ⟨by rw [← h.querybuf], h.shape.append bs rfl rfl rfl, fun hi => by cases hi⟩
    · cases hstep
  | iter =>
    simp only [step] at hstep
    split at hstep
    · rename_i hl
      simp only [Option.some.injEq] at hstep
      subst hstep
      simpa [readsOf] using iterate_shape h hl
    · cases hstep

theorem inv_init {fd : Int} : Inv outcome [] (init fd) :=
  ⟨rfl, .head rfl rfl rfl rfl, fun _ hf => absurd hf.1.1 (by decide)⟩

/-- **Along every run the buffer is what was received and the parser is in one of its four places.** -/
theorem run_shape {fd : Int} {ls : List Label} {s : St} (h : Lts.run (step outcome) (init fd) ls = some s) :
    Inv outcome (received (readsOf ls)) s := by
  refine Lts.run_invariant (I := fun ls s => Inv outcome (received (readsOf ls)) s) ?_ ?_ ls s h
  · exact inv_init
  · intro ls s l s' hi hs
    rw [readsOf_append]
    exact step_shape hi hs

end Query
end Xrtc
