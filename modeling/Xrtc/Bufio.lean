import Mathlib.Data.List.Basic
/-!
# Bufio — Go's buffered writer over a connection that can fail

`bufio.Writer` on a TCP connection: `Write`, `ReadFrom` (what `io.Copy` calls) and `Flush`.  A connection takes the
bytes written to it until its limit, then every `Write` fails.  Whatever is buffered, a sequence of calls succeeds
exactly while the bytes handed in so far fit (`Hands`).
-/
namespace Xrtc

/-- A connection's writing side: how many bytes it takes in all (`none`: any number), the error it fails with, and what
it has taken. -/
structure Socket where
  limit : Option Nat
  fault : String
  sent : List UInt8
  deriving DecidableEq

def Socket.Fits (s : Socket) (n : Nat) : Prop := ∀ k, s.limit = some k → n ≤ k

instance (s : Socket) (n : Nat) : Decidable (s.Fits n) :=
  match h : s.limit with
  | none => .isTrue (fun k hk => by rw [h] at hk; cases hk)
  | some l => decidable_of_iff (n ≤ l) ⟨fun hn k hk => by rw [h] at hk; cases hk; exact hn, fun hf => hf l h⟩

theorem Socket.Fits.mono {s : Socket} {m n : Nat} (h : s.Fits n) (hmn : m ≤ n) : s.Fits m :=
  fun k hk => Nat.le_trans hmn (h k hk)

/-- `net.Conn.Write`: all of `p`, or what still fits and an error. -/
def Socket.write (s : Socket) (p : List UInt8) : Option String × Socket :=
  if s.Fits (s.sent.length + p.length) then (none, { s with sent := s.sent ++ p })
  else (some s.fault, { s with sent := s.sent ++ p.take (s.limit.getD 0 - s.sent.length) })

def defaultBufSize : Nat := 4096

/-- `type Writer struct` of `bufio`: `err` is sticky. -/
structure BufWriter where
  buf : List UInt8
  err : Option String
  sock : Socket
  deriving DecidableEq

namespace BufWriter

def new (sock : Socket) : BufWriter := ⟨[], none, sock⟩

def available (b : BufWriter) : Nat := defaultBufSize - b.buf.length

/-- A `Write` of the connection whose error the writer keeps. -/
def direct (b : BufWriter) (p : List UInt8) : Option String × BufWriter :=
  let (e, sock) := b.sock.write p
  (e, { b with err := e, sock := sock })

/-- `Writer.Flush`; after a failed write the bytes not taken stay buffered. -/
def flush (b : BufWriter) : Option String × BufWriter :=
  if b.err ≠ none then (b.err, b)
  else if b.buf = [] then (none, b)
  else
    let (e, sock) := b.sock.write b.buf
    (e, { buf := b.buf.drop (sock.sent.length - b.sock.sent.length), err := e, sock := sock })

/-- `Writer.Write`: the loop runs at most twice, once to fill and flush, once to write what is longer than a buffer. -/
def write (b : BufWriter) (p : List UInt8) : Option String × BufWriter :=
  if b.err ≠ none then (b.err, b)
  else if p.length ≤ b.available then (none, { b with buf := b.buf ++ p })
  else if b.buf = [] then b.direct p
  else
    let n := b.available
    match { b with buf := b.buf ++ p.take n }.flush with
    | (some e, b) => (some e, b)
    | (none, b) =>
      let p := p.drop n
      if p.length ≤ b.available then (none, { b with buf := b.buf ++ p }) else b.direct p

/-- `Writer.ReadFrom` with a reader that delivers `p`: a TCP connection has its own `ReadFrom`, which takes over once
nothing is buffered. -/
def readFrom (b : BufWriter) (p : List UInt8) : Option String × BufWriter :=
  if b.err ≠ none then (b.err, b)
  else match (if b.available = 0 then b.flush else (none, b)) with
    | (some e, b) => (some e, b)
    | (none, b) =>
      if b.buf = [] then b.direct p
      else
        let n := b.available
        let b := { b with buf := b.buf ++ p.take n }
        if b.available = 0 then
          match b.flush with
          | (some e, b) => (some e, b)
          | (none, b) => b.direct (p.drop n)
        else (none, b)

/-- Everything handed in so far: on the connection, then in the buffer. -/
def out (b : BufWriter) : List UInt8 := b.sock.sent ++ b.buf

structure Good (b : BufWriter) : Prop where
  err : b.err = none
  fits : b.sock.Fits b.sock.sent.length
  size : b.buf.length ≤ defaultBufSize

/-- **What a call with the bytes `p` does to a good writer**: it succeeds and has taken them, or they do not fit. -/
structure Hands (b : BufWriter) (p : List UInt8) (r : Option String × BufWriter) : Prop where
  taken : r.1 = none → r.2.Good ∧ r.2.out = b.out ++ p ∧ r.2.sock.limit = b.sock.limit
  failed : r.1 ≠ none → ¬b.sock.Fits (b.out ++ p).length

theorem Hands.of_taken {b b' : BufWriter} {p : List UInt8} (hg : b'.Good) (hout : b'.out = b.out ++ p)
    (hlimit : b'.sock.limit = b.sock.limit) : Hands b p (none, b') :=
  ⟨fun _ => ⟨hg, hout, hlimit⟩, fun h => absurd rfl h⟩

theorem Hands.of_failed {b b' : BufWriter} {p : List UInt8} {e : String} (h : ¬b.sock.Fits (b.out ++ p).length) :
    Hands b p (some e, b') := by
  refine ⟨fun hn => ?_, fun _ => h⟩
  cases hn

theorem Hands.trans {b b₁ : BufWriter} {p q : List UInt8} {r : Option String × BufWriter} (h₁ : Hands b p (none, b₁))
    (h₂ : Hands b₁ q r) : Hands b (p ++ q) r := by
  obtain ⟨-, hout, hlimit⟩ := h₁.taken rfl
  refine ⟨fun hn => ?_, fun hne hfits => h₂.failed hne ?_⟩
  · obtain ⟨hg₂, hout₂, hlimit₂⟩ := h₂.taken hn
    exact ⟨hg₂, by rw [hout₂, hout, List.append_assoc], hlimit₂.trans hlimit⟩
  · intro k hk
    have := hfits k (hlimit ▸ hk)
    rw [hout, List.append_assoc]
    exact this

theorem Hands.fail {b b₁ b₂ : BufWriter} {p : List UInt8} {e : String} (h : Hands b p (some e, b₁)) (q : List UInt8) :
    Hands b (p ++ q) (some e, b₂) := by
  refine .of_failed (fun hfits => h.failed (by simp) (hfits.mono ?_))
  simp only [List.length_append]
  omega

theorem hands_buffer {b : BufWriter} {p : List UInt8} (hg : b.Good) (hp : p.length ≤ b.available) :
    Hands b p (none, { b with buf := b.buf ++ p }) := by
  have hsize := hg.size
  refine .of_taken ⟨hg.err, hg.fits, ?_⟩ ?_ rfl
  · simp only [available] at hp
    rw [List.length_append]
    omega
  · simp only [out, List.append_assoc]

theorem hands_direct {b : BufWriter} {p : List UInt8} (hg : b.Good) (hbuf : b.buf = []) : Hands b p (b.direct p) := by
  by_cases hfits : b.sock.Fits (b.sock.sent.length + p.length)
  · simp only [direct, Socket.write, if_pos hfits]
    refine .of_taken ⟨rfl, ?_, hg.size⟩ ?_ rfl
    · simpa [Socket.Fits] using hfits
    · simp only [out, hbuf, List.append_nil]
  · simp only [direct, Socket.write, if_neg hfits]
    exact .of_failed (by simpa [out, hbuf] using hfits)

theorem hands_flush {b : BufWriter} (hg : b.Good) : Hands b [] b.flush ∧ (b.flush.1 = none → b.flush.2.buf = []) := by
  unfold flush
  rw [if_neg (by simp [hg.err])]
  by_cases hbuf : b.buf = []
  · rw [if_pos hbuf]
    exact ⟨.of_taken hg (List.append_nil _).symm rfl, fun _ => hbuf⟩
  · rw [if_neg hbuf]
    by_cases hfits : b.sock.Fits (b.sock.sent.length + b.buf.length)
    · simp only [Socket.write, if_pos hfits]
      have hdrop : b.buf.drop ((b.sock.sent ++ b.buf).length - b.sock.sent.length) = [] :=
        List.drop_of_length_le (by simp)
      refine ⟨.of_taken ⟨rfl, ?_, ?_⟩ ?_ rfl, fun _ => hdrop⟩
      · simpa [Socket.Fits] using hfits
      · simp only [hdrop, List.length_nil, Nat.zero_le]
      · simp only [out, hdrop, List.append_nil]
    · simp only [Socket.write, if_neg hfits]
      exact ⟨.of_failed (by simpa [out] using hfits), fun h => by cases h⟩

/-- Filling the buffer and flushing it: it fails for want of room, or the rest goes to an empty writer. -/
theorem hands_fill {b : BufWriter} (hg : b.Good) (p : List UInt8) :
    (∃ e b₁, BufWriter.flush { b with buf := b.buf ++ p.take b.available } = (some e, b₁) ∧ Hands b p (some e, b₁)) ∨
    ∃ b₁ : BufWriter, BufWriter.flush { b with buf := b.buf ++ p.take b.available } = (none, b₁) ∧ b₁.Good ∧
      b₁.buf = [] ∧ ∀ r, Hands b₁ (p.drop b.available) r → Hands b p r := by
  have hfill := hands_buffer hg (List.length_take_le b.available p)
  obtain ⟨hflush, hempty⟩ := hands_flush (hfill.taken rfl).1
  have hboth := hfill.trans hflush
  rw [List.append_nil] at hboth
  have hsplit : p.take b.available ++ p.drop b.available = p := List.take_append_drop _ _
  generalize BufWriter.flush { b with buf := b.buf ++ p.take b.available } = r at hempty hboth ⊢
  obtain ⟨e, b₁⟩ := r
  cases e with
  | some e => exact .inl ⟨e, b₁, rfl, hsplit ▸ hboth.fail _⟩
  | none => exact .inr ⟨b₁, rfl, (hboth.taken rfl).1, hempty rfl, fun r hr => hsplit ▸ hboth.trans hr⟩

theorem hands_write {b : BufWriter} (hg : b.Good) (p : List UInt8) : Hands b p (b.write p) := by
  unfold write
  rw [if_neg (by simp [hg.err])]
  by_cases hp : p.length ≤ b.available
  · rw [if_pos hp]
    exact hands_buffer hg hp
  · rw [if_neg hp]
    by_cases hbuf : b.buf = []
    · rw [if_pos hbuf]
      exact hands_direct hg hbuf
    · rw [if_neg hbuf]
      rcases hands_fill hg p with ⟨e, b₁, hflush, hfail⟩ | ⟨b₁, hflush, hg₁, hbuf₁, hgo⟩
      · simp only [hflush]
        exact hfail
      · simp only [hflush]
        apply hgo
        split
        · rename_i hle
          exact hands_buffer hg₁ hle
        · exact hands_direct hg₁ hbuf₁

theorem hands_readFrom {b : BufWriter} (hg : b.Good) (p : List UInt8) : Hands b p (b.readFrom p) := by
  unfold readFrom
  rw [if_neg (by simp [hg.err])]
  by_cases hfull : b.available = 0
  · -- a full buffer is flushed first, then the connection's own `ReadFrom` takes over
    rw [if_pos hfull]
    obtain ⟨hflush, hempty⟩ := hands_flush hg
    generalize b.flush = r at hflush hempty ⊢
    obtain ⟨e, b₁⟩ := r
    cases e with
    | some e => exact hflush.fail p
    | none =>
      have hbuf₁ : b₁.buf = [] := hempty rfl
      simp only [hbuf₁, if_true]
      exact hflush.trans (hands_direct (hflush.taken rfl).1 hbuf₁)
  · rw [if_neg hfull]
    by_cases hbuf : b.buf = []
    · simp only [hbuf, if_true]
      exact hands_direct hg hbuf
    · simp only [hbuf, if_false]
      split
      · rcases hands_fill hg p with ⟨e, b₁, hflush, hfail⟩ | ⟨b₁, hflush, hg₁, hbuf₁, hgo⟩
        · simp only [hflush]
          exact hfail
        · simp only [hflush]
          exact hgo _ (hands_direct hg₁ hbuf₁)
      · -- the reader ended before the buffer was full
        rename_i hrest
        have hlt : p.length ≤ b.available := by
          simp only [available, List.length_append, List.length_take] at hrest hfull ⊢
          omega
        rw [List.take_of_length_le hlt]
        exact hands_buffer hg hlt

end BufWriter
end Xrtc
