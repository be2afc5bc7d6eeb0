import Xrtc.QueryRun
import Xrtc.Sds
/-!
# QueryRoom — the length and the room of every `read_query` call

One connection's reads (`Query.lean`) together with the length fields of its `querybuf`.  The peer's `body_len` is the
next read's length: it goes through `size_t`, `int`, `size_t` again and the `int` fields of the sds header, and the call
is safe exactly as long as all of these hold it.
-/
namespace Xrtc
namespace Query

open Sds (Sdshdr sdsMakeRoomFor sdsIncrLen sdslen toSize toInt IncrAsserts)

/-- A connection's state and the header of its `querybuf`. -/
structure RoomSt where
  q : St
  buf : Sdshdr

def initRoom (fd : Int) : RoomSt := ⟨init fd, Sds.sdsempty⟩

/-- `conn->querybuf = sdsMakeRoomFor(conn->querybuf, read_len)`: the `int` becomes a `size_t`. -/
def makeRoom (s : RoomSt) : Sdshdr := sdsMakeRoomFor s.buf (toSize (readLen s.q.conn))

/-- `int qb_len = sdslen(conn->querybuf)`. -/
def qbLen (s : RoomSt) : Int := toInt (sdslen s.buf)

/-- The sds header after `read_query`: `sdsIncrLen` is called only for a positive `nread`. -/
def readRoom (s : RoomSt) (r : SysRead) : Sdshdr :=
  match sockReadData r with
  | none => makeRoom s
  | some [] => makeRoom s
  | some (b :: bs) => sdsIncrLen (makeRoom s) ((b :: bs).length : Nat)

def stepRoom (outcome : Nat → Int) (s : RoomSt) (l : Label) : Option RoomSt :=
  (stepFit outcome s.q l).map (fun q' => ⟨q', match l with | .read _ r => readRoom s r | .iter => s.buf⟩)

/-- **A safe `read_query` call**: the length passed to `sock_read_data` is not negative and is `bytes_expected`, the
bytes go behind those already there, `free` and the block both have room for them (and the NUL behind them), and the
asserts of `sdsIncrLen` hold for whatever number of them arrives. -/
structure CallSafe (s : RoomSt) : Prop where
  nonneg : 0 ≤ readLen s.q.conn
  exact : readLen s.q.conn = s.q.conn.bytesExpected
  offset : qbLen s = s.q.conn.querybuf.length
  recorded : readLen s.q.conn ≤ (makeRoom s).free
  allocated : Sds.sdshdrSize + qbLen s + readLen s.q.conn + 1 ≤ (makeRoom s).block
  asserts : ∀ n : Int, 0 < n → n ≤ readLen s.q.conn → IncrAsserts (makeRoom s) n

/-- `s` is a state in which a run with these labels calls `read_query`. -/
def CallsAt (outcome : Nat → Int) (fd : Int) (ls : List Label) (s : RoomSt) : Prop :=
  ∃ pre now r s', pre ++ [.read now r] <+: ls ∧ Lts.run (stepRoom outcome) (initRoom fd) pre = some s ∧
    stepRoom outcome s (.read now r) = some s'

/-- The first `body_len` whose room, with one `SDS_MAX_PREALLOC` on top, does not fit an `int`. -/
def bodyLenLimit : Nat := 2 ^ 31 - 2 ^ 20

/-- **The condition**: fewer than `2 ^ 31` bytes are buffered, and a header that is in announces less than
`bodyLenLimit`. -/
def Small (buf : List UInt8) : Prop := buf.length < 2 ^ 31 ∧ (headIn buf → bodyLenOf buf < bodyLenLimit)

variable {outcome : Nat → Int} {fd : Int}

/-! ## What a run keeps -/

/-- Back in the event loop, a header that is in has been taken. -/
def HeadTaken (s : St) : Prop := s.phase = .idle → headIn s.conn.querybuf → s.conn.bytesExpected = bodyLenOf s.conn.querybuf

/-- Before the header is in the buffer has its first block of 72 bytes, or none yet; afterwards the room left of it is
at most 36 bytes until a call with the announced length has been made. -/
def Fresh (s : RoomSt) : Prop :=
  (headIn s.q.conn.querybuf → s.buf.free ≤ 36 ∨ bodyLenOf s.q.conn.querybuf < bodyLenLimit) ∧
    (s.q.conn.querybuf.length < headerSize → s.buf.free = 0 ∧ s.q.conn.querybuf.length = 0 ∨
      (s.q.conn.querybuf.length : Int) + s.buf.free = 72)

/-- The invariant of a run whose calls were all safe. -/
structure RoomInv (outcome : Nat → Int) (s : RoomSt) : Prop where
  shape : Shape outcome s.q.conn.querybuf s.q.calls.length s.q.conn
  taken : HeadTaken s.q
  holds : s.q.conn.querybuf.length < 2 ^ 31 → s.buf.Holds s.q.conn.querybuf.length
  fresh : Fresh s

theorem bodyLenOf_lt (buf : List UInt8) : bodyLenOf buf < 2 ^ 32 := (xheadAt buf).bodyLen.toNat_lt

/-- The parser waits for a header or for the body that was announced. -/
theorem Shape.expected {buf : List UInt8} {n : Nat} {c : TcpConnection} (h : Shape outcome buf n c) :
    c.bytesExpected = headerSize ∨ headIn buf ∧ c.bytesExpected = bodyLenOf buf := by
  cases h with
  | head _ he => exact .inl he
  | body _ hh he => exact .inr ⟨hh, he⟩
  | failed _ hf he => exact .inr ⟨hf.1, he⟩
  | served _ hf he => exact .inr ⟨hf.1, he⟩

/-- Under the condition the length goes through its conversions unchanged, and there is room for it. -/
theorem RoomInv.makeRoom_holds {s : RoomSt} (h : RoomInv outcome s) (hsm : Small s.q.conn.querybuf) :
    readLen s.q.conn = s.q.conn.bytesExpected ∧ (makeRoom s).Holds s.q.conn.querybuf.length ∧
      (s.q.conn.bytesExpected : Int) ≤ (makeRoom s).free := by
  obtain ⟨hlen, hbody⟩ := hsm
  have hE : s.q.conn.bytesExpected < bodyLenLimit := by
    rcases h.shape.expected with he | ⟨hh, he⟩
    · rw [he]; decide
    · rw [he]; exact hbody hh
  have hlim : bodyLenLimit = 2 ^ 31 - 2 ^ 20 := rfl
  have hread : readLen s.q.conn = s.q.conn.bytesExpected := Sds.toInt_of_lt (by omega) (by omega)
  have hsize : toSize (readLen s.q.conn) = s.q.conn.bytesExpected := by
    have := Sds.toSize_of_nonneg (x := (s.q.conn.bytesExpected : Int)) (by omega) (by omega)
    rw [hread]
    omega
  obtain ⟨hroom, hfree⟩ := (h.holds hlen).makeRoom hlen (k := s.q.conn.bytesExpected) (by omega)
  have hmk : makeRoom s = sdsMakeRoomFor s.buf s.q.conn.bytesExpected := by unfold makeRoom; rw [hsize]
  rw [← hmk] at hroom hfree
  exact ⟨hread, hroom, hfree⟩

/-- **A call under the condition is safe.** -/
theorem callSafe_of_small {s : RoomSt} (h : RoomInv outcome s) (hsm : Small s.q.conn.querybuf) : CallSafe s := by
  obtain ⟨hread, hroom, hfree⟩ := h.makeRoom_holds hsm
  have hlen := hsm.1
  have hq : qbLen s = s.q.conn.querybuf.length := by
    unfold qbLen
    rw [(h.holds hlen).sdslen_eq hlen, Sds.toInt_of_lt (by omega) (by omega)]
  refine ⟨by omega, hread, hq, by omega, ?_, fun n h0 hn => hroom.incrAsserts (by omega) (by omega)⟩
  have hblock := hroom.block
  omega

/-- **A safe call meets the condition.** -/
theorem small_of_callSafe {s : RoomSt} (h : RoomInv outcome s) (hidle : s.q.phase = .idle) (hsafe : CallSafe s) :
    Small s.q.conn.querybuf := by
  have hlen : s.q.conn.querybuf.length < 2 ^ 31 := by
    have hlt : qbLen s < 2 ^ 31 := Sds.toInt_lt _
    have := hsafe.offset
    omega
  refine ⟨hlen, fun hh => ?_⟩
  have hE := h.taken hidle hh
  have hlim : bodyLenLimit = 2 ^ 31 - 2 ^ 20 := rfl
  by_contra hbig
  have hb32 := bodyLenOf_lt s.q.conn.querybuf
  have hread : readLen s.q.conn = toInt (bodyLenOf s.q.conn.querybuf) := by rw [← hE]; rfl
  rcases Nat.lt_or_ge (bodyLenOf s.q.conn.querybuf) (2 ^ 31) with hsmall | hlarge
  · -- the block is enlarged, and its new room does not fit `free`
    have hfree : s.buf.free ≤ 36 := by
      rcases h.fresh.1 hh with hf | hf
      · exact hf
      · omega
    have hread' : readLen s.q.conn = bodyLenOf s.q.conn.querybuf := by
      rw [hread, Sds.toInt_of_lt (by omega) (by omega)]
    have hsize : toSize (readLen s.q.conn) = bodyLenOf s.q.conn.querybuf := by
      have := Sds.toSize_of_nonneg (x := (bodyLenOf s.q.conn.querybuf : Int)) (by omega) (by omega)
      rw [hread']
      omega
    have hwrap := (h.holds hlen).makeRoom_wraps hlen (k := bodyLenOf s.q.conn.querybuf) (by omega) hsmall (by omega)
    have hrec := hsafe.recorded
    unfold makeRoom at hrec
    rw [hsize] at hrec
    omega
  · -- the length itself is negative
    have hneg : readLen s.q.conn = bodyLenOf s.q.conn.querybuf - 2 ^ 32 := by
      rw [hread, Sds.toInt_of_ge (by omega) (by omega)]
    have := hsafe.nonneg
    omega

/-- An iteration does not touch the buffer, and leaves the loop with a header that is in only once it has been taken. -/
theorem roomInv_iter {s : RoomSt} (h : RoomInv outcome s) (hl : s.q.phase = .looping) :
    RoomInv outcome ⟨iterate outcome s.q, s.buf⟩ := by
  have hinv : Inv outcome s.q.conn.querybuf s.q := ⟨rfl, h.shape, fun hi => by rw [hl] at hi; cases hi⟩
  have hnext := iterate_shape hinv hl
  have hbuf := hnext.querybuf
  refine ⟨by simp only [hbuf]; exact hnext.shape, ?_, by simp only [hbuf]; exact h.holds, ?_⟩
  · intro hidle hh
    rw [hbuf] at hh ⊢
    have hbody : s.q.conn.currentState = .body → s.q.conn.bytesExpected = bodyLenOf s.q.conn.querybuf →
        (iterate outcome s.q).conn.bytesExpected = bodyLenOf s.q.conn.querybuf := by
      intro hs he
      rw [iterate_body outcome rfl hs he]
      split
      · split
        · exact he
        · exact he
      · exact he
    cases h.shape with
    | head hs he hp =>
      -- the header would have been taken, and the loop gone on
      simp only at hidle
      rw [iterate_head outcome rfl hs he hp, if_pos hh, show ({ s.q with conn := _ } : St).phase = s.q.phase from rfl,
        hl] at hidle
      cases hidle
    | body hs _ he => exact hbody hs he
    | failed hs _ he => exact hbody hs he
    | served hs _ he => exact hbody hs he
  · obtain ⟨h1, h2⟩ := h.fresh
    exact ⟨by simp only [hbuf]; exact h1, by simp only [hbuf]; exact h2⟩

/-- The bytes before the header is in share one block of 72. -/
theorem makeRoom_fresh {s : RoomSt} (h : RoomInv outcome s) (hlen : s.q.conn.querybuf.length < headerSize) :
    (s.q.conn.querybuf.length : Int) + (makeRoom s).free = 72 := by
  have hE : s.q.conn.bytesExpected = headerSize := by
    rcases h.shape.expected with he | ⟨hh, -⟩
    · exact he
    · exact absurd hh.1 (by omega)
  have hmk : makeRoom s = sdsMakeRoomFor s.buf 36 := by
    unfold makeRoom readLen
    rw [hE]
    rfl
  have h36 : headerSize = 36 := rfl
  have hholds := h.holds (by omega)
  rw [hmk]
  rcases h.fresh.2 hlen with ⟨hfree, h0⟩ | h72
  · rw [h0] at hholds ⊢
    rw [hholds.makeRoom_of_gt (by decide) (by decide) (by rw [hfree]; decide)]
    rfl
  · rw [hholds.makeRoom_of_le (by omega)]
    exact h72

theorem sdsIncrLen_zero {b : Sdshdr} {n : Nat} (hb : b.Holds n) (hn : n < 2 ^ 31) : sdsIncrLen b 0 = b := by
  have h1 : toInt b.len = b.len := Sds.toInt_of_lt (by rw [hb.len]; omega) (by rw [hb.len]; omega)
  have h2 : toInt b.free = b.free := Sds.toInt_of_lt hb.free_nonneg hb.free_lt
  simp only [sdsIncrLen, Int.add_zero, Int.sub_zero, h1, h2]

theorem readRoom_some {s : RoomSt} {r : SysRead} {bs : List UInt8} {n : Nat} (hr : sockReadData r = some bs)
    (hb : (makeRoom s).Holds n) (hn : n < 2 ^ 31) : readRoom s r = sdsIncrLen (makeRoom s) (bs.length : Nat) := by
  unfold readRoom
  rw [hr]
  cases bs with
  | nil => exact (sdsIncrLen_zero hb hn).symm
  | cons b bs => rfl

theorem fits_length {c : TcpConnection} {r : SysRead} {bs : List UInt8} (hf : fits c r) (hr : sockReadData r = some bs)
    (h0 : 0 ≤ readLen c) : (bs.length : Int) ≤ readLen c := by
  cases r with
  | err e =>
    cases e with
    | true =>
      cases hr
      exact h0
    | false => cases hr
  | bytes l =>
    have hl : (l.length : Int) ≤ max 0 (readLen c) := hf
    cases l with
    | nil => cases hr
    | cons b l =>
      cases hr
      omega

theorem roomInv_close {s : RoomSt} {now : Nat} {r : SysRead} (h : RoomInv outcome s) (hsm : Small s.q.conn.querybuf)
    (hr : sockReadData r = none) : RoomInv outcome ⟨readStep s.q now r, readRoom s r⟩ := by
  have hrr : readRoom s r = makeRoom s := by unfold readRoom; rw [hr]
  have happ : Shape outcome (s.q.conn.querybuf ++ []) s.q.calls.length { s.q.conn with lastInteractionTime := now } :=
    h.shape.append [] rfl rfl rfl
  rw [List.append_nil] at happ
  unfold readStep
  rw [hrr, hr]
  refine ⟨happ, ?_, ?_, ?_, ?_⟩
  · intro hi
    cases hi
  · intro _
    dsimp only
    exact (h.makeRoom_holds hsm).2.1
  · intro hh
    exact .inr (hsm.2 hh)
  · intro hlt
    dsimp only at hlt ⊢
    exact .inr (makeRoom_fresh h hlt)

/-- A read that completes the header comes from a call for the header. -/
theorem header_completed {s : RoomSt} {bs : List UInt8} (h : RoomInv outcome s) (hsafe : CallSafe s)
    (hold : ¬ headIn s.q.conn.querybuf) (hh : headIn (s.q.conn.querybuf ++ bs)) :
    s.q.conn.querybuf.length < headerSize ∧ readLen s.q.conn = headerSize := by
  constructor
  · by_contra hge
    refine hold ⟨by omega, ?_⟩
    rw [← xheadAt_append (b := bs) (by omega)]
    exact hh.2
  · rw [hsafe.exact]
    rcases h.shape.expected with he | ⟨hin, -⟩
    · rw [he]
    · exact absurd hin hold

/-- **A safe read keeps the invariant.** -/
theorem roomInv_read {s : RoomSt} {now : Nat} {r : SysRead} (h : RoomInv outcome s) (hidle : s.q.phase = .idle)
    (hfit : fits s.q.conn r) (hsafe : CallSafe s) : RoomInv outcome ⟨readStep s.q now r, readRoom s r⟩ := by
  have hsm := small_of_callSafe h hidle hsafe
  have h36 : headerSize = 36 := rfl
  have hroom := (h.makeRoom_holds hsm).2.1
  cases hr : sockReadData r with
  | none => exact roomInv_close h hsm hr
  | some bs =>
    have hbs := fits_length hfit hr hsafe.nonneg
    have hrec := hsafe.recorded
    unfold readStep
    rw [readRoom_some hr hroom hsm.1, hr]
    refine ⟨h.shape.append bs rfl rfl rfl, fun hi => absurd hi (by simp), ?_, ?_, ?_⟩
    · intro hlt
      simp only [List.length_append] at hlt ⊢
      exact (hroom.incrLen (by omega) hlt).1
    · intro hh
      simp only at hh ⊢
      by_cases hold : headIn s.q.conn.querybuf
      · rw [bodyLenOf_append bs hold]
        exact .inr (hsm.2 hold)
      · obtain ⟨hshort, hE⟩ := header_completed h hsafe hold hh
        have hfr := makeRoom_fresh h hshort
        have hlen := hh.1
        rw [List.length_append] at hlen
        rw [(hroom.incrLen (k := bs.length) (by omega) (by omega)).2]
        exact .inl (by omega)
    · intro hlt
      simp only [List.length_append] at hlt ⊢
      have hfr := makeRoom_fresh h (by omega)
      rw [(hroom.incrLen (k := bs.length) (by omega) (by omega)).2]
      exact .inr (by omega)

theorem roomInv_init : RoomInv outcome (initRoom fd) := by
  have hno : ¬ headIn (initRoom fd).q.conn.querybuf := fun hh => Nat.not_succ_le_zero 35 hh.1
  exact ⟨.head rfl rfl rfl rfl, fun _ hh => absurd hh hno, fun _ => Sds.sdsempty_holds, fun hh => absurd hh hno,
    fun _ => .inl ⟨rfl, rfl⟩⟩

theorem stepRoom_read {s s' : RoomSt} {now : Nat} {r : SysRead} (h : stepRoom outcome s (.read now r) = some s') :
    s.q.phase = .idle ∧ fits s.q.conn r ∧ s' = ⟨readStep s.q now r, readRoom s r⟩ := by
  obtain ⟨q', hq, rfl⟩ := Option.map_eq_some_iff.1 h
  simp only [stepFit, step] at hq
  split at hq
  · rename_i hfit
    split at hq
    · rename_i hidle
      cases hq
      exact ⟨hidle, hfit, rfl⟩
    · cases hq
  · cases hq

theorem stepRoom_iter {s s' : RoomSt} (h : stepRoom outcome s .iter = some s') :
    s.q.phase = .looping ∧ s' = ⟨iterate outcome s.q, s.buf⟩ := by
  obtain ⟨q', hq, rfl⟩ := Option.map_eq_some_iff.1 h
  simp only [stepFit, step] at hq
  split at hq
  · rename_i hl
    cases hq
    exact ⟨hl, rfl⟩
  · cases hq

/-- **Along a run whose calls are safe so far the invariant holds**; `hcalls` may use it. -/
theorem run_roomInv {ls : List Label}
    (hcalls : ∀ s, CallsAt outcome fd ls s → RoomInv outcome s → CallSafe s) :
    ∀ (pre : List Label) (s : RoomSt), pre <+: ls → Lts.run (stepRoom outcome) (initRoom fd) pre = some s →
      RoomInv outcome s := by
  intro pre
  induction pre using List.reverseRecOn with
  | nil =>
    intro s _ hrun
    cases hrun
    exact roomInv_init
  | append_singleton pre l ih =>
    intro s' hpre hrun
    rw [Lts.run_append] at hrun
    obtain ⟨s, h1, h2⟩ := Option.bind_eq_some_iff.1 hrun
    obtain ⟨s₁, h3, h4⟩ := Option.bind_eq_some_iff.1 h2
    simp only [Lts.run, Option.some.injEq] at h4
    subst h4
    have hinv := ih s ((List.prefix_append _ _).trans hpre) h1
    cases l with
    | iter =>
      obtain ⟨hl, rfl⟩ := stepRoom_iter h3
      exact roomInv_iter hinv hl
    | read now r =>
      have hsafe := hcalls s ⟨pre, now, r, s₁, hpre, h1, h3⟩ hinv
      obtain ⟨hidle, hfit, rfl⟩ := stepRoom_read h3
      exact roomInv_read hinv hidle hfit hsafe

/-- **When the read-length arithmetic is safe**: for every run of a connection, whatever the peer sends and however it
is cut into reads, every `read_query` call is safe exactly when every one of them finds fewer than `2 ^ 31` bytes
buffered and, once a header with the right magic is in, a `body_len` below `2 ^ 31 - 2 ^ 20`. -/
theorem read_length_safe_iff (outcome : Nat → Int) (fd : Int) (ls : List Label) :
    (∀ s, CallsAt outcome fd ls s → CallSafe s) ↔ (∀ s, CallsAt outcome fd ls s → Small s.q.conn.querybuf) := by
  constructor
  · intro h s hs
    obtain ⟨pre, now, r, s', hpre, hrun, hstep⟩ := hs
    have hinv := run_roomInv (fun s hs _ => h s hs) pre s ((List.prefix_append _ _).trans hpre) hrun
    exact small_of_callSafe hinv (stepRoom_read hstep).1 (h s ⟨pre, now, r, s', hpre, hrun, hstep⟩)
  · intro h s hs
    obtain ⟨pre, now, r, s', hpre, hrun, hstep⟩ := hs
    have hinv := run_roomInv (fun s hs hi => callSafe_of_small hi (h s hs)) pre s
      ((List.prefix_append _ _).trans hpre) hrun
    exact callSafe_of_small hinv (h s ⟨pre, now, r, s', hpre, hrun, hstep⟩)

/-- A header with the right magic that announces `0x80000000` bytes. -/
def hugeHeader : Header := { Header.zero with magicNum := headerMagic, bodyLen := 0x80000000 }

/-- The header arrives and is taken; then the next read is asked for. -/
def hugeBody : List Label := [.read 1 (.bytes hugeHeader.bytes), .iter, .iter, .read 2 (.err true)]

/-- **A peer can make the length negative**: after a header that announces `2 ^ 31` bytes the next `read_query` passes
`-2 ^ 31` to `sock_read_data`. -/
theorem huge_body_len_goes_negative :
    ∃ s, CallsAt (fun _ => 0) 5 hugeBody s ∧ headIn s.q.conn.querybuf ∧ readLen s.q.conn = -2 ^ 31 ∧ ¬ CallSafe s := by
  have hsome : ((Lts.run (stepRoom (fun _ => 0)) (initRoom 5) (hugeBody.take 3)).bind
      (fun s => stepRoom (fun _ => 0) s (.read 2 (.err true)))).isSome = true := by decide
  obtain ⟨s', hs'⟩ := Option.isSome_iff_exists.1 hsome
  obtain ⟨s, hrun, hstep⟩ := Option.bind_eq_some_iff.1 hs'
  have hlook : (Lts.run (stepRoom (fun _ => 0)) (initRoom 5) (hugeBody.take 3)).map
      (fun s => (decide (headIn s.q.conn.querybuf), readLen s.q.conn)) = some (true, -2 ^ 31) := by decide
  rw [hrun, Option.map_some, Option.some.injEq, Prod.mk.injEq, decide_eq_true_eq] at hlook
  refine ⟨s, ⟨hugeBody.take 3, 2, .err true, s', List.prefix_refl _, hrun, hstep⟩, hlook.1, hlook.2, fun hsafe => ?_⟩
  have hneg := hsafe.nonneg
  rw [hlook.2] at hneg
  exact absurd hneg (by decide)

end Query
end Xrtc
