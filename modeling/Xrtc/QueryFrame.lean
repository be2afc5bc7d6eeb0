import Xrtc.QueryRun
import Xrtc.Rpc
/-!
# QueryFrame — the Go client's frame, cut anyhow, is one request

`readQuery` is one whole `read_query` call: the read, then `process_query_buffer`'s loop, given `fuel` iterations to
return in.  A frame the client emits is handed to `process_request_` once, in the call that brings its last byte
(`request_framing`), because before that byte no whole frame is in and after it the marker keeps the loop out.
-/
namespace Xrtc
namespace Query

variable {outcome : Nat → Int}

/-- `process_query_buffer`, within `fuel` iterations; `none` when it has not returned by then. -/
def processQueryBuffer (outcome : Nat → Int) : Nat → St → Option St
  | 0, s => if s.phase = .looping then none else some s
  | fuel + 1, s => if s.phase = .looping then processQueryBuffer outcome fuel (iterate outcome s) else some s

def readQuery (outcome : Nat → Int) (fuel : Nat) (s : St) (now : Nat) (r : SysRead) : Option St :=
  if s.phase = .idle then processQueryBuffer outcome fuel (readStep s now r) else none

/-- Successive `read_query` calls whose reads bring the given bytes at the given times. -/
def readQueries (outcome : Nat → Int) (fuel : Nat) : St → List (Nat × List UInt8) → Option St
  | s, [] => some s
  | s, cut :: cuts => (readQuery outcome fuel s cut.1 (.bytes cut.2)).bind
      (fun s' => readQueries outcome fuel s' cuts)

theorem processQueryBuffer_of_ne {fuel : Nat} {s : St} (h : s.phase ≠ .looping) :
    processQueryBuffer outcome fuel s = some s := by
  cases fuel <;> simp [processQueryBuffer, h]

theorem processQueryBuffer_succ {fuel : Nat} {s : St} (h : s.phase = .looping) :
    processQueryBuffer outcome (fuel + 1) s = processQueryBuffer outcome fuel (iterate outcome s) := by
  simp [processQueryBuffer, h]

/-- Once no whole frame is in, the body branch leaves the loop without a call. -/
theorem leave_body {fuel : Nat} {s : St} {buf : List UInt8} (hb : s.conn.querybuf = buf) (hl : s.phase = .looping)
    (hs : s.conn.currentState = .body) (he : s.conn.bytesExpected = bodyLenOf buf)
    (hshort : buf.length < bodyLenOf buf + s.conn.bytesProcessed) :
    processQueryBuffer outcome (fuel + 1) s = some { s with phase := .idle } := by
  rw [processQueryBuffer_succ hl, iterate_body outcome hb hs he, if_neg (by omega)]
  exact processQueryBuffer_of_ne (by simp)

/-- **Without a whole frame, the loop returns and no call is made.** -/
theorem processQueryBuffer_partial {fuel : Nat} {s : St} {buf : List UInt8} (h : Inv outcome buf s)
    (hl : s.phase = .looping) (hc : s.calls = []) (hf : ¬ frameIn buf) (hfuel : 3 ≤ fuel) :
    ∃ s', processQueryBuffer outcome fuel s = some s' ∧ Inv outcome buf s' ∧ s'.phase = .idle ∧ s'.calls = [] := by
  obtain ⟨fuel, rfl⟩ : ∃ k, fuel = k + 2 := ⟨fuel - 2, by omega⟩
  obtain ⟨hb, hshape, -⟩ := h
  cases hshape with
  | head h1 h2 h3 h4 =>
    rw [processQueryBuffer_succ hl, iterate_head outcome hb h1 h2 h3]
    by_cases hh : headIn buf
    · have hshort : buf.length < bodyLenOf buf + headerSize :=
        Nat.lt_of_not_le (fun hle => hf ⟨hh, by omega⟩)
      rw [if_pos hh]
      refine ⟨_, leave_body (s := { s with conn := { s.conn with
        bytesProcessed := headerSize, bytesExpected := bodyLenOf buf, currentState := .body } }) hb hl rfl rfl hshort,
        ⟨hb, .body rfl hh rfl rfl h4, fun _ hfr => absurd hfr hf⟩, rfl, hc⟩
    · rw [if_neg hh]
      exact ⟨_, processQueryBuffer_of_ne (by simp), ⟨hb, .head h1 h2 h3 h4, fun _ hfr => absurd hfr hf⟩, rfl, hc⟩
  | body h1 h2 h3 h4 h5 =>
    have hshort : buf.length < bodyLenOf buf + s.conn.bytesProcessed :=
      Nat.lt_of_not_le (fun hle => hf ⟨h2, by omega⟩)
    rw [leave_body hb hl h1 h3 hshort]
    exact ⟨_, rfl, ⟨hb, .body h1 h2 h3 h4 h5, fun _ hfr => absurd hfr hf⟩, rfl, hc⟩
  | failed _ hfr => exact absurd hfr hf
  | served _ hfr => exact absurd hfr hf

/-- The first whole frame, still short of the marker, is handed over once. -/
theorem processQueryBuffer_body {fuel : Nat} {s : St} {buf : List UInt8} (hb : s.conn.querybuf = buf)
    (hl : s.phase = .looping) (hc : s.calls = []) (hs : s.conn.currentState = .body)
    (he : s.conn.bytesExpected = bodyLenOf buf) (hp : s.conn.bytesProcessed = headerSize) (hf : frameIn buf)
    (hmark : buf.length < bodyLenOf buf + doneMark) :
    ∃ s', processQueryBuffer outcome (fuel + 2) s = some s' ∧ s'.phase = .idle ∧ s'.calls = [callOf s.conn] := by
  have hfull := hf.2
  rw [processQueryBuffer_succ hl, iterate_body outcome hb hs he, if_pos (by rw [hp]; omega), hc]
  by_cases ho : outcome ([] : List Call).length < 0
  · rw [if_pos ho]
    exact ⟨_, processQueryBuffer_of_ne (by simp), rfl, rfl⟩
  · rw [if_neg ho]
    exact ⟨_, leave_body (s := { s with
      conn := { s.conn with bytesProcessed := doneMark }, calls := [callOf s.conn] }) hb hl hs he hmark, rfl, rfl⟩

/-- **With the first whole frame, the loop makes one call and returns.** -/
theorem processQueryBuffer_frame {fuel : Nat} {s : St} {buf : List UInt8} (h : Inv outcome buf s)
    (hl : s.phase = .looping) (hc : s.calls = []) (hf : frameIn buf) (hmark : buf.length < bodyLenOf buf + doneMark)
    (hfuel : 3 ≤ fuel) :
    ∃ s', processQueryBuffer outcome fuel s = some s' ∧ s'.phase = .idle ∧
      s'.calls = [⟨buf.take headerSize, (buf.drop headerSize).take (bodyLenOf buf)⟩] := by
  obtain ⟨fuel, rfl⟩ : ∃ k, fuel = k + 3 := ⟨fuel - 3, by omega⟩
  obtain ⟨hb, hshape, -⟩ := h
  subst hb
  cases hshape with
  | head h1 h2 h3 h4 =>
    rw [processQueryBuffer_succ hl, iterate_head outcome rfl h1 h2 h3, if_pos hf.1]
    exact processQueryBuffer_body (s := { s with conn := _ }) rfl hl hc rfl rfl rfl hf hmark
  | body h1 h2 h3 h4 h5 => exact processQueryBuffer_body rfl hl hc h1 h3 h4 hf hmark
  | failed _ _ _ _ h5 => simp [hc] at h5
  | served _ _ _ _ h5 => simp [hc] at h5

/-! ## A frame of the client, cut into reads -/

section Cut
variable {hd : Header} {body : List UInt8}

theorem bodyLenOf_frame (rest : List UInt8) : bodyLenOf (hd.bytes ++ rest) = hd.bodyLen.toNat := by
  unfold bodyLenOf
  rw [(xheadAt_bytes hd rest).2.2]

/-- No strict prefix of the client's frame holds a whole frame. -/
theorem not_frameIn_of_split (hlen : hd.bodyLen.toNat = body.length) {pre post : List UInt8}
    (hsplit : hd.bytes ++ body = pre ++ post) (hpost : post ≠ []) : ¬ frameIn pre := by
  rintro ⟨hh, hf⟩
  have hn := bodyLenOf_append post hh
  rw [← hsplit, bodyLenOf_frame, hlen] at hn
  have htot := congrArg List.length hsplit
  simp only [List.length_append, Header.length_bytes] at htot
  have := List.length_pos_of_ne_nil hpost
  omega

theorem frameIn_frame (hmagic : hd.magicNum = headerMagic) (hlen : hd.bodyLen.toNat = body.length) :
    frameIn (hd.bytes ++ body) := by
  refine ⟨⟨by simp, ?_⟩, ?_⟩
  · rw [(xheadAt_bytes hd body).2.1, hmagic]
  · rw [bodyLenOf_frame, hlen]
    simp

theorem readQuery_looping {s : St} {buf bs : List UInt8} (now fuel : Nat) (h : Inv outcome buf s)
    (hi : s.phase = .idle) (hbs : bs ≠ []) :
    ∃ s', readQuery outcome fuel s now (.bytes bs) = processQueryBuffer outcome fuel s' ∧
      Inv outcome (buf ++ bs) s' ∧ s'.phase = .looping ∧ s'.calls = s.calls := by
  cases bs with
  | nil => exact absurd rfl hbs
  | cons b bs =>
    refine ⟨readStep s now (.bytes (b :: bs)), by rw [readQuery, if_pos hi], ⟨?_, ?_, fun h0 => by cases h0⟩, rfl, rfl⟩
    · simp [readStep, sockReadData, h.querybuf]
    · exact h.shape.append (b :: bs) rfl rfl rfl

/-- **The cut is irrelevant up to the last byte**: from an idle connection that has received `pre`, reads that bring a
strict prefix of the rest of the frame return one by one without a call. -/
theorem readQueries_partial {fuel : Nat} (hfuel : 3 ≤ fuel) (hlen : hd.bodyLen.toNat = body.length) :
    ∀ (cuts : List (Nat × List UInt8)) (s : St) (pre post : List UInt8), Inv outcome pre s → s.phase = .idle →
      s.calls = [] → (∀ c ∈ cuts, c.2 ≠ []) → hd.bytes ++ body = pre ++ ((cuts.map Prod.snd).flatten ++ post) →
      post ≠ [] →
      ∃ s', readQueries outcome fuel s cuts = some s' ∧ Inv outcome (pre ++ (cuts.map Prod.snd).flatten) s' ∧
        s'.phase = .idle ∧ s'.calls = []
  | [], s, pre, post, h, hi, hc, _, _, _ => ⟨s, rfl, by simpa using h, hi, hc⟩
  | cut :: cuts, s, pre, post, h, hi, hc, hne, hsplit, hpost => by
    obtain ⟨s₁, hq, h₁, hl₁, hc₁⟩ := readQuery_looping cut.1 fuel h hi (hne cut (by simp))
    have hsplit' : hd.bytes ++ body = (pre ++ cut.2) ++ ((cuts.map Prod.snd).flatten ++ post) := by
      rw [hsplit, List.map_cons, List.flatten_cons]
      simp only [List.append_assoc]
    have hrest : (cuts.map Prod.snd).flatten ++ post ≠ [] := by simp [hpost]
    obtain ⟨s₂, hs₂, h₂, hi₂, hc₂⟩ := processQueryBuffer_partial h₁ hl₁ (hc₁.trans hc)
      (not_frameIn_of_split hlen hsplit' hrest) hfuel
    obtain ⟨s₃, hs₃, h₃, hi₃, hc₃⟩ := readQueries_partial hfuel hlen cuts s₂ (pre ++ cut.2) post h₂ hi₂ hc₂
      (fun c hcm => hne c (List.mem_cons_of_mem _ hcm)) hsplit' hpost
    refine ⟨s₃, ?_, ?_, hi₃, hc₃⟩
    · rw [readQueries, hq, hs₂, Option.bind_some, hs₃]
    · rw [List.map_cons, List.flatten_cons, ← List.append_assoc]
      exact h₃

end Cut

theorem readQueries_append {fuel : Nat} : ∀ (s : St) (xs ys : List (Nat × List UInt8)),
    readQueries outcome fuel s (xs ++ ys) =
      (readQueries outcome fuel s xs).bind (fun s' => readQueries outcome fuel s' ys)
  | s, [], ys => rfl
  | s, x :: xs, ys => by
    rw [List.cons_append, readQueries, readQueries, Option.bind_assoc]
    congr 1
    funext s'
    exact readQueries_append s' xs ys

/-- **Go-to-C++ framing agreement.**  However the bytes the client emits for `body` and `logId` are cut into non-empty
reads, at whatever times and whatever `process_request_` answers, `read_query` returns each time, makes no call before
the read that brings the last byte, and makes exactly one call there: on the first 36 bytes as header, with the log id
the client wrote, and on the body's bytes. -/
theorem request_framing (outcome : Nat → Int) (fd : Int) (body : List UInt8) (logId : UInt32)
    (hN : body.length < 2 ^ 29) (cuts : List (Nat × List UInt8)) (hne : ∀ c ∈ cuts, c.2 ≠ [])
    (hcut : emitted body logId = .ok (cuts.map Prod.snd).flatten) (fuel : Nat) (hfuel : 3 ≤ fuel) :
    (∀ i, i < cuts.length → ∃ s, readQueries outcome fuel (init fd) (cuts.take i) = some s ∧ s.calls = []) ∧
    ∃ s hdr, readQueries outcome fuel (init fd) cuts = some s ∧ s.calls = [⟨hdr, body⟩] ∧
      hdr = ((cuts.map Prod.snd).flatten).take headerSize ∧ (xheadAt hdr).logId = logId := by
  obtain ⟨hd, hlog, hmagic, hlen, hem⟩ := emitted_eq body logId (by omega)
  have hfr : hd.bytes ++ body = (cuts.map Prod.snd).flatten := by
    rw [hem] at hcut
    exact Except.ok.inj hcut
  have hinit : Inv outcome [] (init fd) := inv_init
  refine ⟨fun i hi => ?_, ?_⟩
  · -- the reads before the last leave at least one byte of the frame out
    have hsplit : hd.bytes ++ body = [] ++ (((cuts.take i).map Prod.snd).flatten ++ ((cuts.drop i).map Prod.snd).flatten) := by
      rw [hfr, List.nil_append, ← List.flatten_append, ← List.map_append, List.take_append_drop]
    have hpost : ((cuts.drop i).map Prod.snd).flatten ≠ [] := by
      rw [List.drop_eq_getElem_cons hi, List.map_cons, List.flatten_cons]
      intro hnil
      exact hne _ (List.getElem_mem hi) (List.append_eq_nil_iff.1 hnil).1
    obtain ⟨s, hs, -, -, hc⟩ := readQueries_partial hfuel hlen (cuts.take i) (init fd) [] _ hinit rfl rfl
      (fun c hc => hne c (List.mem_of_mem_take hc)) hsplit hpost
    exact ⟨s, hs, hc⟩
  · have hcuts : cuts ≠ [] := by
      intro h0
      have := congrArg List.length hfr
      simp [h0, headerSize] at this
    obtain ⟨front, last, rfl⟩ : ∃ front last, cuts = front ++ [last] :=
      ⟨cuts.dropLast, cuts.getLast hcuts, (List.dropLast_append_getLast hcuts).symm⟩
    have hflat : ((front ++ [last]).map Prod.snd).flatten = (front.map Prod.snd).flatten ++ last.2 := by simp
    rw [hflat] at hfr
    obtain ⟨s₁, hs₁, h₁, hi₁, hc₁⟩ := readQueries_partial hfuel hlen front (init fd) [] last.2 hinit rfl rfl
      (fun c hc => hne c (List.mem_append_left _ hc)) (by rw [hfr, List.nil_append]) (hne last (by simp))
    rw [List.nil_append] at h₁
    obtain ⟨s₂, hq, h₂, hl₂, hc₂⟩ := readQuery_looping last.1 fuel h₁ hi₁ (hne last (by simp))
    rw [← hfr] at h₂
    have hmark : (hd.bytes ++ body).length < bodyLenOf (hd.bytes ++ body) + doneMark := by
      rw [bodyLenOf_frame, hlen, List.length_append, Header.length_bytes]
      unfold headerSize doneMark
      omega
    obtain ⟨s₃, hs₃, -, hc₃⟩ := processQueryBuffer_frame h₂ hl₂ (hc₂.trans hc₁) (frameIn_frame hmagic hlen) hmark hfuel
    refine ⟨s₃, (hd.bytes ++ body).take headerSize, ?_, ?_, ?_, ?_⟩
    · rw [readQueries_append, hs₁, Option.bind_some, readQueries, hq, hs₃, Option.bind_some, readQueries]
    · rw [hc₃, bodyLenOf_frame, hlen]
      have hdrop : (hd.bytes ++ body).drop headerSize = body := by
        rw [← hd.length_bytes, List.drop_left]
      rw [hdrop, List.take_length]
    · rw [hflat, hfr]
    · rw [xheadAt_take (by simp), (xheadAt_bytes hd body).1, hlog]

/-- The frame of body `{}` and log id 7, cut inside the header and again inside the body. -/
def cutFrame : List (Nat × List UInt8) :=
  [(1, [0, 0, 0, 0, 7, 0, 0, 0, 0, 0, 0, 0, 0, 0, 0, 0, 0, 0, 0, 0, 0, 0, 0, 0, 2, 34, 32, 251, 0, 0]),
   (2, [0, 0, 2, 0, 0, 0, 123]), (3, [125])]

theorem request_framing_cutFrame :
    (∀ i, i < 3 → ∃ s, readQueries (fun _ => 0) 3 (init 5) (cutFrame.take i) = some s ∧ s.calls = []) ∧
    ∃ s hdr, readQueries (fun _ => 0) 3 (init 5) cutFrame = some s ∧ s.calls = [⟨hdr, [123, 125]⟩] ∧
      hdr = ((cutFrame.map Prod.snd).flatten).take headerSize ∧ (xheadAt hdr).logId = 7 :=
  request_framing (fun _ => 0) 5 [123, 125] 7 (by decide) cutFrame (by decide) rfl 3 (by decide)

end Query
end Xrtc
