import Xrtc.QueryFrame
/-!
# QueryLoop — when the frame loop leaves

No iteration of `process_query_buffer` consumes anything, so the loop leaves only through its condition, a bad magic or
a negative answer of `process_request_`.  After a success the condition compares the buffer with the announced body
length plus the marker 65535: a buffer that long keeps the loop in for as long as the calls succeed (`Spins`), and that
is the only way to stay in (`returns_iff`).
-/
namespace Xrtc
namespace Query

variable {outcome : Nat → Int}

def Returns (outcome : Nat → Int) (s : St) : Prop := ∃ fuel s', processQueryBuffer outcome fuel s = some s'

/-- The loop's condition stays true past the marker and every call from the `n`-th on succeeds. -/
def Spins (outcome : Nat → Int) (buf : List UInt8) (n : Nat) : Prop :=
  frameIn buf ∧ bodyLenOf buf + doneMark ≤ buf.length ∧ ∀ k, n ≤ k → 0 ≤ outcome k

theorem headerSize_le_doneMark : headerSize ≤ doneMark := by decide

theorem returns_of_iterate {s : St} (hl : s.phase = .looping) (h : Returns outcome (iterate outcome s)) :
    Returns outcome s := by
  obtain ⟨fuel, s', hs⟩ := h
  exact ⟨fuel + 1, s', by rw [processQueryBuffer_succ hl, hs]⟩

theorem returns_of_idle {s : St} (h : s.phase = .idle) : Returns outcome s :=
  ⟨0, s, processQueryBuffer_of_ne (by simp [h])⟩

theorem Shape.processed_le {buf : List UInt8} {n : Nat} {c : TcpConnection} (h : Shape outcome buf n c) :
    c.bytesProcessed ≤ doneMark := by
  have := headerSize_le_doneMark
  cases h <;> omega

/-- In `STATE_BODY`, before or after a call. -/
theorem Shape.of_body {buf : List UInt8} {n : Nat} {c : TcpConnection} (h : Shape outcome buf n c)
    (hs : c.currentState = .body) : headIn buf ∧ c.bytesExpected = bodyLenOf buf := by
  cases h with
  | head h1 => rw [h1] at hs; cases hs
  | body _ h2 h3 => exact ⟨h2, h3⟩
  | failed _ h2 h3 => exact ⟨h2.1, h3⟩
  | served _ h2 h3 => exact ⟨h2.1, h3⟩

theorem iterate_spins {s : St} {buf : List UInt8} (h : Inv outcome buf s) (hl : s.phase = .looping)
    (hsp : Spins outcome buf s.calls.length) :
    (iterate outcome s).phase = .looping ∧ Spins outcome buf (iterate outcome s).calls.length := by
  obtain ⟨hf, hlen, ho⟩ := hsp
  cases hs : s.conn.currentState with
  | head =>
    cases h.shape with
    | head h1 h2 h3 h4 =>
      rw [iterate_head outcome h.querybuf h1 h2 h3, if_pos hf.1]
      exact ⟨hl, hf, hlen, ho⟩
    | body h1 => rw [h1] at hs; cases hs
    | failed h1 => rw [h1] at hs; cases hs
    | served h1 => rw [h1] at hs; cases hs
  | body =>
    have hp := h.shape.processed_le
    have hnn := ho s.calls.length (Nat.le_refl _)
    rw [iterate_body outcome h.querybuf hs (h.shape.of_body hs).2, if_pos (by omega), if_neg (by omega)]
    exact ⟨hl, hf, hlen, fun k hk => ho k (by rw [List.length_append] at hk; omega)⟩

/-- **A spinning loop does not return**, whatever the number of iterations. -/
theorem not_returns_of_spins : ∀ (fuel : Nat) (s : St) (buf : List UInt8), Inv outcome buf s → s.phase = .looping →
    Spins outcome buf s.calls.length → processQueryBuffer outcome fuel s = none
  | 0, s, _, _, hl, _ => by simp [processQueryBuffer, hl]
  | fuel + 1, s, buf, h, hl, hsp => by
    obtain ⟨hl', hsp'⟩ := iterate_spins h hl hsp
    rw [processQueryBuffer_succ hl]
    exact not_returns_of_spins fuel _ buf (iterate_shape h hl) hl' hsp'

/-- In `STATE_BODY` the loop returns when some call to come fails: the `d`-th from now. -/
theorem returns_of_failure : ∀ (d : Nat) (s : St) (buf : List UInt8), Inv outcome buf s → s.phase = .looping →
    s.conn.currentState = .body → outcome (s.calls.length + d) < 0 → Returns outcome s
  | d, s, buf, h, hl, hs, hd => by
    refine returns_of_iterate hl ?_
    have hit := iterate_body outcome h.querybuf hs (h.shape.of_body hs).2
    by_cases hc : bodyLenOf buf + s.conn.bytesProcessed ≤ buf.length
    · by_cases ho : outcome s.calls.length < 0
      · rw [hit, if_pos hc, if_pos ho]
        exact returns_of_idle rfl
      · rw [if_pos hc, if_neg ho] at hit
        cases d with
        | zero => exact absurd hd ho
        | succ d =>
          refine returns_of_failure d (iterate outcome s) buf (iterate_shape h hl) (by rw [hit]; exact hl)
            (by rw [hit]; exact hs) ?_
          rw [hit, List.length_append, List.length_singleton]
          have e : s.calls.length + 1 + d = s.calls.length + (d + 1) := by omega
          rw [e]
          exact hd
    · rw [hit, if_neg hc]
      exact returns_of_idle rfl

/-- In `STATE_BODY` the loop returns when the buffer is shorter than the body and the marker. -/
theorem returns_of_short {s : St} {buf : List UInt8} (h : Inv outcome buf s) (hl : s.phase = .looping)
    (hs : s.conn.currentState = .body) (hshort : buf.length < bodyLenOf buf + doneMark) : Returns outcome s := by
  refine returns_of_iterate hl ?_
  have he := (h.shape.of_body hs).2
  rw [iterate_body outcome h.querybuf hs he]
  split
  · split
    · exact returns_of_idle rfl
    · exact ⟨1, _, leave_body (s := { s with
        conn := { s.conn with bytesProcessed := doneMark }, calls := s.calls ++ [callOf s.conn] })
        h.querybuf hl hs he hshort⟩
  · exact returns_of_idle rfl

/-- **The loop returns exactly when it does not spin**, from every state a connection can be in. -/
theorem returns_iff {s : St} {buf : List UInt8} (h : Inv outcome buf s) (hl : s.phase = .looping) :
    Returns outcome s ↔ ¬ Spins outcome buf s.calls.length := by
  constructor
  · rintro ⟨fuel, s', hs'⟩ hsp
    rw [not_returns_of_spins fuel s buf h hl hsp] at hs'
    cases hs'
  · intro hns
    have hbody : ∀ t : St, Inv outcome buf t → t.phase = .looping → t.conn.currentState = .body →
        t.calls.length = s.calls.length → Returns outcome t := by
      intro t ht hlt hst hct
      by_cases hshort : buf.length < bodyLenOf buf + doneMark
      · exact returns_of_short ht hlt hst hshort
      · by_cases hf : frameIn buf
        · obtain ⟨k, hk⟩ := not_forall.1 (fun hall => hns ⟨hf, by omega, hall⟩)
          obtain ⟨hck, hok⟩ := Classical.not_imp.1 hk
          refine returns_of_failure (k - t.calls.length) t buf ht hlt hst ?_
          have e : t.calls.length + (k - t.calls.length) = k := by omega
          rw [e]
          omega
        · have := ht.shape.of_body hst
          have hle : ¬ headerSize + bodyLenOf buf ≤ buf.length := fun hle => hf ⟨this.1, hle⟩
          exact absurd headerSize_le_doneMark (by omega)
    cases hs : s.conn.currentState with
    | body => exact hbody s h hl hs rfl
    | head =>
      cases h.shape with
      | head h1 h2 h3 h4 =>
        refine returns_of_iterate hl ?_
        have hinv := iterate_shape h hl
        rw [iterate_head outcome h.querybuf h1 h2 h3] at hinv ⊢
        by_cases hh : headIn buf
        · rw [if_pos hh] at hinv ⊢
          exact hbody _ hinv hl rfl rfl
        · rw [if_neg hh]
          exact returns_of_idle rfl
      | body h1 => rw [h1] at hs; cases hs
      | failed h1 => rw [h1] at hs; cases hs
      | served h1 => rw [h1] at hs; cases hs

def spinHeader : Header := { Header.zero with magicNum := headerMagic, bodyLen := 65500 }

def blanks (n : Nat) : List UInt8 := List.replicate n 32

theorem length_blanks (n : Nat) : (blanks n).length = n := List.length_replicate

/-- A header announcing 65500 bytes, all of the body but its last byte, then a full read of 65500 bytes: the body is
`\x7b\x7d` and blanks, for which `process_request_` finds no command and answers 0. -/
def spinLabels : List Label :=
  [.read 0 (.bytes spinHeader.bytes), .iter, .iter, .read 1 (.bytes (123 :: 125 :: blanks 65497)), .iter,
   .read 2 (.bytes (32 :: blanks 65499))]

/-- A connection that has read `buf` and waits for the body of `spinHeader`. -/
def waiting (buf : List UInt8) (now : Nat) (ph : Phase) : St :=
  ⟨{ fd := 5, querybuf := buf, bytesExpected := 65500, bytesProcessed := headerSize, currentState := .body,
     lastInteractionTime := now }, ph, []⟩

theorem stepFit_waiting_read {buf : List UInt8} {t now : Nat} {b : UInt8} {bs : List UInt8} (h : bs.length < 65500) :
    stepFit outcome (waiting buf t .idle) (.read now (.bytes (b :: bs))) =
      some (waiting (buf ++ b :: bs) now .looping) := by
  have hlen : readLen (waiting buf t .idle).conn = 65500 := by
    show Int.bmod ((65500 : Nat) : Int) (2 ^ 32) = 65500
    decide
  have hfit : fits (waiting buf t .idle).conn (.bytes (b :: bs)) := by
    simp only [fits, hlen, List.length_cons]
    omega
  simp only [stepFit]
  rw [if_pos hfit]
  rfl

theorem stepFit_waiting_iter {buf : List UInt8} {t : Nat} (hn : bodyLenOf buf = 65500)
    (hshort : buf.length < 65500 + headerSize) :
    stepFit outcome (waiting buf t .looping) .iter = some (waiting buf t .idle) := by
  have hbuf : (waiting buf t .looping).conn.querybuf = buf := rfl
  have hit := iterate_body outcome hbuf rfl hn.symm
  have hp : (waiting buf t .looping).conn.bytesProcessed = headerSize := rfl
  rw [if_neg (by rw [hp]; omega)] at hit
  have hl : (waiting buf t .looping).phase = .looping := rfl
  simp only [stepFit, step]
  rw [if_pos hl, hit]
  rfl

theorem stepFit_spinHeader :
    Lts.run (stepFit outcome) (init 5) [.read 0 (.bytes spinHeader.bytes), .iter] =
      some (waiting spinHeader.bytes 0 .looping) := by
  have hh : headIn spinHeader.bytes := by decide
  have hn : bodyLenOf spinHeader.bytes = 65500 := by decide
  have hfit : fits (init 5).conn (.bytes spinHeader.bytes) := by decide
  have h1 : stepFit outcome (init 5) (.read 0 (.bytes spinHeader.bytes)) =
      some ⟨{ fd := 5, querybuf := spinHeader.bytes }, .looping, []⟩ := by
    rw [stepFit, if_pos hfit]
    rfl
  have hit := iterate_head outcome (s := ⟨{ fd := 5, querybuf := spinHeader.bytes }, .looping, []⟩)
    rfl rfl rfl rfl
  rw [if_pos hh, hn] at hit
  rw [Lts.run, h1, Option.bind_some, Lts.run, stepFit, step, if_pos rfl, hit]
  rfl

end Query
end Xrtc
