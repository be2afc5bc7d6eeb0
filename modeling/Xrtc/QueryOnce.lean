import Xrtc.QueryLoop
/-!
# QueryOnce — when a connection is served at most once

`process_request_` is handed a second request on one connection in two ways: the first was refused, which leaves the
parser where it was, and the peer goes on; or the first succeeded and the peer goes on until the buffer, which is never
trimmed, passes the announced body length plus the marker 65535.  `served_at_most_once` says these are the only ways.
-/
namespace Xrtc
namespace Query

variable {outcome : Nat → Int} {fd : Int} {rs : List SysRead}

/-- No run along the reads `rs` makes two `process_request_` calls. -/
def AtMostOnce (outcome : Nat → Int) (fd : Int) (rs : List SysRead) : Prop :=
  ∀ ls s, readsOf ls <+: rs → Lts.run (step outcome) (init fd) ls = some s → s.calls.length ≤ 1

/-- None of the reads closes the connection. -/
def Open (rs : List SysRead) : Prop := ∀ r ∈ rs, sockReadData r ≠ none

/-- Whenever a whole frame is in: if its request succeeds the buffer stays short of the marker, and if it fails the
connection's next read, if there is one, closes it. -/
def OneShot (outcome : Nat → Int) (rs : List SysRead) : Prop :=
  ∀ pre post, rs = pre ++ post → Open pre → frameIn (received pre) →
    (0 ≤ outcome 0 → (received pre).length < bodyLenOf (received pre) + doneMark) ∧
    (outcome 0 < 0 → ∀ r, post.head? = some r → sockReadData r = none)

/-- What holds along the runs of a one-shot sequence of reads. -/
structure Once (outcome : Nat → Int) (ls : List Label) (s : St) : Prop where
  inv : Inv outcome (received (readsOf ls)) s
  opened : s.phase ≠ .closed → Open (readsOf ls)
  calls : s.calls.length ≤ 1
  served : s.phase = .looping → s.calls.length = 1 → 0 ≤ outcome 0

theorem Shape.frame_of_pos {buf : List UInt8} {n : Nat} {c : TcpConnection} (h : Shape outcome buf n c) (hn : 0 < n) :
    frameIn buf := by
  cases h with
  | head _ _ _ h4 => omega
  | body _ _ _ _ h5 => omega
  | failed _ h2 => exact h2
  | served _ h2 => exact h2

/-- An iteration adds at most one call, and leaves the loop when that call fails. -/
theorem iterate_calls (outcome : Nat → Int) (s : St) :
    (iterate outcome s).calls.length ≤ s.calls.length + 1 ∧
      (s.calls.length < (iterate outcome s).calls.length → (iterate outcome s).phase = .looping →
        0 ≤ outcome s.calls.length) := by
  unfold iterate
  split
  · split
    · split <;> simp
    · split
      · simp
      · refine ⟨by simp, fun _ _ => by omega⟩
  · simp

theorem once_read {ls : List Label} {s : St} {now : Nat} {r : SysRead} (hone : OneShot outcome rs)
    (h : Once outcome ls s) (hi : s.phase = .idle) (hpre : readsOf (ls ++ [.read now r]) <+: rs)
    (hinv : Inv outcome (received (readsOf (ls ++ [.read now r]))) (readStep s now r)) :
    Once outcome (ls ++ [.read now r]) (readStep s now r) := by
  have hro : readsOf (ls ++ [.read now r]) = readsOf ls ++ [r] := by rw [readsOf_append]; rfl
  have hopen : Open (readsOf ls) := h.opened (by simp [hi])
  have hcalls : (readStep s now r).calls = s.calls := by unfold readStep; split <;> rfl
  refine ⟨hinv, fun hnc => ?_, by rw [hcalls]; exact h.calls, fun hl hone' => ?_⟩
  · rw [hro]
    intro q hq
    rcases List.mem_append.1 hq with hq | hq
    · exact hopen q hq
    · rw [List.mem_singleton] at hq
      subst hq
      intro hn
      apply hnc
      simp [readStep, hn]
  · -- a request already refused: the reads that follow would have to close the connection
    rw [hcalls] at hone'
    apply Int.not_lt.1
    intro hneg
    obtain ⟨post, hpost⟩ := hpre
    rw [hro, List.append_assoc] at hpost
    have hclose := (hone (readsOf ls) ([r] ++ post) hpost.symm hopen
      (h.inv.shape.frame_of_pos (by omega))).2 hneg r rfl
    simp [readStep, hclose] at hl

theorem once_iter {ls : List Label} {s : St} (hone : OneShot outcome rs) (h : Once outcome ls s)
    (hl : s.phase = .looping) (hpre : readsOf ls <+: rs) (hinv : Inv outcome (received (readsOf ls)) (iterate outcome s)) :
    Once outcome (ls ++ [.iter]) (iterate outcome s) := by
  have hro : readsOf (ls ++ [.iter]) = readsOf ls := by rw [readsOf_append]; simp [readsOf]
  have hopen : Open (readsOf ls) := h.opened (by simp [hl])
  refine ⟨by rw [hro]; exact hinv, fun _ => by rw [hro]; exact hopen, ?_, ?_⟩
  · rcases Nat.lt_or_ge s.calls.length 1 with h0 | h1
    · have := (iterate_calls outcome s).1
      omega
    · -- the one call was a success, and the buffer is still short of the marker
      have hc1 : s.calls.length = 1 := Nat.le_antisymm h.calls h1
      have hok := h.served hl hc1
      obtain ⟨post, hpost⟩ := hpre
      have hshort := (hone (readsOf ls) post hpost.symm hopen (h.inv.shape.frame_of_pos h1)).1 hok
      cases h.inv.shape with
      | head _ _ _ h4 => omega
      | body _ _ _ _ h5 => omega
      | failed _ _ _ _ _ h6 =>
        rw [hc1] at h6
        simp only [Nat.sub_self] at h6
        omega
      | served h1' h2 h3 h4 =>
        rw [iterate_body outcome h.inv.querybuf h1' h3, if_neg (by rw [h4]; omega)]
        exact h.calls
  · intro hl' hc1
    rcases Nat.lt_or_ge s.calls.length 1 with h0 | h1
    · have hz : s.calls.length = 0 := by omega
      have := (iterate_calls outcome s).2 (by omega) hl'
      rwa [hz] at this
    · exact h.served hl (Nat.le_antisymm h.calls h1)

theorem run_once (hone : OneShot outcome rs) : ∀ (ls : List Label) (s : St),
    Lts.run (step outcome) (init fd) ls = some s → readsOf ls <+: rs → Once outcome ls s := by
  refine Lts.run_invariant (I := fun ls s => readsOf ls <+: rs → Once outcome ls s) ?_ ?_
  · intro _
    refine ⟨inv_init, fun _ r hr => ?_, by simp [init], fun hl => by cases hl⟩
    simp [readsOf] at hr
  · intro ls s l s' ih hs hpre
    have hpre' : readsOf ls <+: rs := by
      rw [readsOf_append] at hpre
      exact (List.prefix_append _ _).trans hpre
    have h := ih hpre'
    have hinv := step_shape h.inv hs
    rw [← readsOf_append] at hinv
    cases l with
    | read now r =>
      simp only [step] at hs
      split at hs
      · rename_i hi
        simp only [Option.some.injEq] at hs
        subst hs
        exact once_read hone h hi hpre hinv
      · cases hs
    | iter =>
      simp only [step] at hs
      split at hs
      · rename_i hl
        simp only [Option.some.injEq] at hs
        subst hs
        refine once_iter hone h hl hpre' ?_
        rw [readsOf_append] at hinv
        simpa [readsOf] using hinv
      · cases hs

/-! ## The other direction: reads that are not one-shot are answered twice -/

theorem iterate_not_closed {s : St} (h : s.phase ≠ .closed) : (iterate outcome s).phase ≠ .closed := by
  unfold iterate
  split
  · split
    · split
      · simp
      · exact h
    · split
      · simp
      · exact h
  · simp

theorem run_of_processQueryBuffer : ∀ (fuel : Nat) (s s' : St), s.phase ≠ .closed →
    processQueryBuffer outcome fuel s = some s' →
    ∃ n, Lts.run (step outcome) s (List.replicate n .iter) = some s' ∧ s'.phase = .idle
  | fuel, s, s', hnc, h => by
    cases hl : s.phase with
    | closed => exact absurd hl hnc
    | idle =>
      rw [processQueryBuffer_of_ne (by simp [hl])] at h
      exact ⟨0, h, by rw [← Option.some.inj h]; exact hl⟩
    | looping =>
      cases fuel with
      | zero => simp [processQueryBuffer, hl] at h
      | succ fuel =>
        rw [processQueryBuffer_succ hl] at h
        obtain ⟨n, hn, hi⟩ := run_of_processQueryBuffer fuel _ s' (iterate_not_closed hnc) h
        refine ⟨n + 1, ?_, hi⟩
        rw [List.replicate_succ, Lts.run, step, if_pos hl, Option.bind_some, hn]

theorem readsOf_replicate_iter (n : Nat) : readsOf (List.replicate n .iter) = [] := by
  simp [readsOf]

/-- A read that does not close the connection, from the event loop into the while loop. -/
theorem run_read {ls : List Label} {s : St} (now : Nat) {r : SysRead} {bs : List UInt8}
    (hrun : Lts.run (step outcome) (init fd) ls = some s) (hi : s.phase = .idle) (hr : sockReadData r = some bs) :
    ∃ s', Lts.run (step outcome) (init fd) (ls ++ [.read now r]) = some s' ∧ s'.phase = .looping ∧
      s'.calls = s.calls ∧ readsOf (ls ++ [.read now r]) = readsOf ls ++ [r] := by
  refine ⟨readStep s now r, ?_, by simp [readStep, hr], by simp [readStep, hr], by rw [readsOf_append]; rfl⟩
  rw [Lts.run_append, hrun, Option.bind_some, Lts.run, step, if_pos hi, Option.bind_some, Lts.run]

theorem run_iters {ls : List Label} {s s' : St} {n : Nat} (hrun : Lts.run (step outcome) (init fd) ls = some s)
    (hn : Lts.run (step outcome) s (List.replicate n .iter) = some s') :
    Lts.run (step outcome) (init fd) (ls ++ List.replicate n .iter) = some s' ∧
      readsOf (ls ++ List.replicate n .iter) = readsOf ls := by
  refine ⟨by rw [Lts.run_append, hrun, Option.bind_some, hn], ?_⟩
  rw [readsOf_append, readsOf_replicate_iter, List.append_nil]

theorem iterate_call {s : St} {buf : List UInt8} (hb : s.conn.querybuf = buf) (hs : s.conn.currentState = .body)
    (he : s.conn.bytesExpected = bodyLenOf buf) (hc : bodyLenOf buf + s.conn.bytesProcessed ≤ buf.length) :
    (iterate outcome s).calls.length = s.calls.length + 1 := by
  rw [iterate_body outcome hb hs he, if_pos hc]
  split <;> simp

theorem run_one_iter {s : St} (hl : s.phase = .looping) :
    Lts.run (step outcome) s (List.replicate 1 .iter) = some (iterate outcome s) := by
  simp [Lts.run, step, hl]

/-- Past the marker every iteration in the body state is a call. -/
theorem body_call {s : St} {buf : List UInt8} (h : Inv outcome buf s) (hs : s.conn.currentState = .body)
    (hlen : bodyLenOf buf + doneMark ≤ buf.length) : (iterate outcome s).calls.length = s.calls.length + 1 := by
  have hmark := headerSize_le_doneMark
  have hp := h.shape.processed_le
  exact iterate_call h.querybuf hs (h.shape.of_body hs).2 (by omega)

theorem second_call_of_body {s : St} {buf : List UInt8} (h : Inv outcome buf s) (hl : s.phase = .looping)
    (hs : s.conn.currentState = .body) (hlen : bodyLenOf buf + doneMark ≤ buf.length)
    (h0 : s.calls.length = 0 → 0 ≤ outcome 0) :
    ∃ n s', Lts.run (step outcome) s (List.replicate n .iter) = some s' ∧ 2 ≤ s'.calls.length := by
  have hmark := headerSize_le_doneMark
  have h1 := body_call h hs hlen
  by_cases hc0 : s.calls.length = 0
  · -- the first call succeeds and leaves the loop where it was
    have hp := h.shape.processed_le
    have hit := iterate_body outcome h.querybuf hs (h.shape.of_body hs).2
    rw [if_pos (by omega), if_neg (by rw [hc0]; have := h0 hc0; omega)] at hit
    have hl' : (iterate outcome s).phase = .looping := by rw [hit]; exact hl
    have h2 := body_call (iterate_shape h hl) (by rw [hit]; exact hs) hlen
    refine ⟨1 + 1, iterate outcome (iterate outcome s), ?_, by omega⟩
    rw [List.replicate_add, Lts.run_append, run_one_iter hl, Option.bind_some, run_one_iter hl']
  · exact ⟨1, iterate outcome s, run_one_iter hl, by omega⟩

/-- **Past the marker, a second call follows the first**, if that one did not fail. -/
theorem second_call {s : St} {buf : List UInt8} (h : Inv outcome buf s) (hl : s.phase = .looping) (hf : frameIn buf)
    (hlen : bodyLenOf buf + doneMark ≤ buf.length) (h0 : s.calls.length = 0 → 0 ≤ outcome 0) :
    ∃ n s', Lts.run (step outcome) s (List.replicate n .iter) = some s' ∧ 2 ≤ s'.calls.length := by
  cases hs : s.conn.currentState with
  | body => exact second_call_of_body h hl hs hlen h0
  | head =>
    cases h.shape with
    | head h1 h2 h3 h4 =>
      have hinv := iterate_shape h hl
      have hit := iterate_head outcome h.querybuf h1 h2 h3
      rw [if_pos hf.1] at hit
      obtain ⟨n, s', hn, hc⟩ := second_call_of_body hinv (by rw [hit]; exact hl) (by rw [hit]) hlen
        (by rw [hit]; exact h0)
      refine ⟨1 + n, s', ?_, hc⟩
      rw [List.replicate_add, Lts.run_append, run_one_iter hl, Option.bind_some, hn]
    | body h1 => rw [h1] at hs; cases hs
    | failed h1 => rw [h1] at hs; cases hs
    | served h1 => rw [h1] at hs; cases hs

/-- Along reads that are answered at most once, every open prefix is worked off. -/
theorem exists_idle_run (hone : AtMostOnce outcome fd rs) : ∀ (pre : List SysRead), pre <+: rs → Open pre →
    ∃ ls s, readsOf ls = pre ∧ Lts.run (step outcome) (init fd) ls = some s ∧ s.phase = .idle := by
  intro pre
  induction pre using List.reverseRecOn with
  | nil => exact fun _ _ => ⟨[], init fd, rfl, rfl, rfl⟩
  | append_singleton pre r ih =>
    intro hpre hopen
    obtain ⟨ls, s, hls, hrun, hi⟩ := ih ((List.prefix_append _ _).trans hpre)
      (fun q hq => hopen q (List.mem_append_left _ hq))
    obtain ⟨bs, hbs⟩ := Option.ne_none_iff_exists'.1 (hopen r (by simp))
    obtain ⟨s₁, hrun₁, hl₁, hc₁, hro₁⟩ := run_read 0 hrun hi hbs
    have hpre₁ : readsOf (ls ++ [.read 0 r]) <+: rs := by rw [hro₁, hls]; exact hpre
    have hinv := run_shape hrun₁
    have hns : ¬ Spins outcome (received (readsOf (ls ++ [.read 0 r]))) s₁.calls.length := by
      rintro ⟨hf, hlen, hall⟩
      obtain ⟨n, s₂, hn, hc₂⟩ := second_call hinv hl₁ hf hlen (fun hc0 => hall 0 (by omega))
      obtain ⟨hrun₂, hro₂⟩ := run_iters hrun₁ hn
      have := hone _ s₂ (by rw [hro₂]; exact hpre₁) hrun₂
      omega
    obtain ⟨fuel, s₂, hs₂⟩ := (returns_iff hinv hl₁).2 hns
    obtain ⟨n, hn, hi₂⟩ := run_of_processQueryBuffer fuel s₁ s₂ (by simp [hl₁]) hs₂
    obtain ⟨hrun₂, hro₂⟩ := run_iters hrun₁ hn
    exact ⟨_, s₂, by rw [hro₂, hro₁, hls], hrun₂, hi₂⟩

/-- A request that succeeds is followed by fewer bytes than the marker: the read that completed `pre` would otherwise
have been followed by two calls. -/
theorem short_of_atMostOnce (hone : AtMostOnce outcome fd rs) {pre : List SysRead} (hpre : pre <+: rs) (hopen : Open pre)
    (hf : frameIn (received pre)) (h0 : 0 ≤ outcome 0) :
    (received pre).length < bodyLenOf (received pre) + doneMark := by
  apply Nat.lt_of_not_le
  intro hlen
  have hne : pre ≠ [] := by
    rintro rfl
    exact absurd hf.1.1 (by decide)
  obtain ⟨front, r, rfl⟩ : ∃ front r, pre = front ++ [r] :=
    ⟨pre.dropLast, pre.getLast hne, (List.dropLast_append_getLast hne).symm⟩
  obtain ⟨ls, s, hls, hrun, hi⟩ := exists_idle_run hone front ((List.prefix_append _ _).trans hpre)
    (fun q hq => hopen q (List.mem_append_left _ hq))
  obtain ⟨bs, hbs⟩ := Option.ne_none_iff_exists'.1 (hopen r (by simp))
  obtain ⟨s₁, hrun₁, hl₁, -, hro₁⟩ := run_read 0 hrun hi hbs
  have hinv := run_shape hrun₁
  rw [hro₁, hls] at hinv
  obtain ⟨n, s₂, hn, hc₂⟩ := second_call hinv hl₁ hf hlen (fun _ => h0)
  obtain ⟨hrun₂, hro₂⟩ := run_iters hrun₁ hn
  have := hone _ s₂ (by rw [hro₂, hro₁, hls]; exact hpre) hrun₂
  omega

/-- After a refused request a further read finds the refused frame where it was, and it is refused again. -/
theorem refused_again {s : St} {buf : List UInt8} (h : Inv outcome buf s) (hneg : outcome 0 < 0)
    (hc : s.calls.length = 1) : (iterate outcome s).calls.length = 2 := by
  cases h.shape with
  | head _ _ _ h4 => omega
  | body _ _ _ _ h5 => omega
  | failed h1 h2 h3 h4 =>
    have hfull := h2.2
    rw [iterate_call h.querybuf h1 h3 (by rw [h4]; omega), hc]
  | served _ _ _ _ _ h6 =>
    obtain ⟨k, hk, hok⟩ := h6
    have hk0 : k = 0 := by omega
    rw [hk0] at hok
    omega

theorem closed_of_atMostOnce (hone : AtMostOnce outcome fd rs) {pre post : List SysRead} {r : SysRead}
    (hsplit : rs = pre ++ r :: post) (hopen : Open pre) (hf : frameIn (received pre)) (hneg : outcome 0 < 0) :
    sockReadData r = none := by
  apply Classical.byContradiction
  intro hopenr
  obtain ⟨bs, hbs⟩ := Option.ne_none_iff_exists'.1 hopenr
  have hpre : pre <+: rs := ⟨r :: post, hsplit.symm⟩
  obtain ⟨ls, s, hls, hrun, hi⟩ := exists_idle_run hone pre hpre hopen
  have hinv := run_shape hrun
  rw [hls] at hinv
  have hpos := hinv.handed hi hf
  have hc1 : s.calls.length = 1 := Nat.le_antisymm (hone ls s (by rw [hls]; exact hpre) hrun) hpos
  obtain ⟨s₁, hrun₁, hl₁, hcalls₁, hro₁⟩ := run_read 0 hrun hi hbs
  have hcall := refused_again (run_shape hrun₁) hneg (by rw [hcalls₁, hc1])
  obtain ⟨hrun₂, hro₂⟩ := run_iters hrun₁ (run_one_iter hl₁)
  have := hone _ _ (by rw [hro₂, hro₁, hls]; exact ⟨post, by rw [hsplit]; simp⟩) hrun₂
  omega

/-- **Reads answered at most once are one-shot.** -/
theorem oneShot_of_atMostOnce (hone : AtMostOnce outcome fd rs) : OneShot outcome rs := by
  intro pre post hsplit hopen hf
  refine ⟨fun h0 => short_of_atMostOnce hone ⟨post, hsplit.symm⟩ hopen hf h0, fun hneg r hr => ?_⟩
  cases post with
  | nil => simp at hr
  | cons q post' =>
    simp only [List.head?_cons, Option.some.injEq] at hr
    exact closed_of_atMostOnce hone (by rw [hsplit, hr]) hopen hf hneg

/-- A frame whose one-byte body `x` is no JSON, then one more byte. -/
def refusedTwice : List Label :=
  [.read 0 (.bytes { Header.zero with magicNum := headerMagic, bodyLen := 1 }.bytes), .iter, .iter,
   .read 1 (.bytes [120]), .iter, .read 2 (.bytes [120]), .iter]

end Query
end Xrtc
