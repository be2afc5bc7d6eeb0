import Xrtc.Bufio
import Xrtc.RpcReader
import Xrtc.Selector
/-!
# Client — one request of the RPC client

`Client.DO` of `xrpc/client.go`: pick a server, dial, write the request through a buffered writer, read the response,
close.  What the selector, the dial and the two directions of the connection do are arguments; the result counts, for
every connection obtained, the calls of `Close`.
-/
namespace Xrtc

/-- `time.Millisecond`; durations are nanoseconds. -/
def millisecond : Int := 1000000

def defaultReadTimeout : Int := 500 * millisecond

def defaultWriteTimeout : Int := 500 * millisecond

/-- `type Client struct`; the fields keep their capitals, the methods below have the same names without. -/
structure Client (A : Type) where
  ConnectTimeout : Int
  ReadTimeout : Int
  WriteTimeout : Int
  selector : RoundRobinSelector A
  deriving DecidableEq

variable {A : Type}

/-- `NewClient`: what `SetServer` returns is dropped. -/
def newClient (resolve : GoString → Except String A) (servers : List GoString) : Client A :=
  ⟨0, 0, 0, (RoundRobinSelector.new.setServer resolve servers).2⟩

def Client.readTimeout (c : Client A) : Int := if c.ReadTimeout = 0 then defaultReadTimeout else c.ReadTimeout

def Client.writeTimeout (c : Client A) : Int := if c.WriteTimeout = 0 then defaultWriteTimeout else c.WriteTimeout

/-- A `net.Conn` as the backend makes it: how much it takes before writes fail, with which error, and what it
sends. -/
structure NetConn where
  limit : Option Nat
  fault : String
  resp : Reader
  deriving DecidableEq

def NetConn.sock (nc : NetConn) : Socket := ⟨nc.limit, nc.fault, []⟩

/-- `net.DialTimeout` to an address with a timeout; a connection's behaviour depends on the read and write timeouts. -/
abbrev Dial (A : Type) := A → Int → Except String (Int → Int → NetConn)

def Header.writeTo (h : Header) (w : BufWriter) : Option String × BufWriter :=
  match h.marshal (List.replicate headerSize 0) with
  | .error e => (some e, w)
  | .ok buf => w.write buf

/-- `Request.Write` to a buffered writer; `none` is the nil dereference of `io.Copy` from a nil body. -/
def Request.writeTo (r : Request) (w : BufWriter) : Option (Option String × BufWriter) :=
  match r.header.writeTo w with
  | (some e, w) => some (some e, w)
  | (none, w) => match r.body with
    | none => none
    | some body => some (w.readFrom body)

inductive DoErr where
  | pick (text : String)
  | dial (text : String)
  | write (text : String)
  | read (e : ReadErr)
  deriving DecidableEq

/-- What `DO` returns, and how often each connection it obtained has been closed by then. -/
structure Returned where
  resp : Option Response
  err : Option DoErr
  closes : List Nat
  deriving DecidableEq

/-- What `DO` does with the connection: the request, the response, and `Close` at the end only. -/
def NetConn.exchange (nc : NetConn) (req : Request) : Option Returned :=
  match req.writeTo (.new nc.sock) with
  | none => none
  | some (some e, _) => some ⟨none, some (.write e), [0]⟩
  | some (none, w) => match w.flush with
    | (some e, _) => some ⟨none, some (.write e), [0]⟩
    | (none, _) => match readResponseFrom nc.resp with
      | (_, some e, _) => some ⟨none, some (.read e), [0]⟩
      | (resp, none, _) => some ⟨resp, none, [1]⟩

/-- `Client.DO` when `PickServer` did `pick`; `none` is a panic. -/
def Client.DO (c : Client A) (pick : Pick A) (dial : Dial A) (req : Request) : Option Returned :=
  match pick with
  | .panicked => none
  | .error text => some ⟨none, some (.pick text), []⟩
  | .addr addr =>
    -- the field itself, not `connectTimeout()`
    match dial addr c.ConnectTimeout with
    | .error text => some ⟨none, some (.dial text), []⟩
    | .ok peer => (peer c.readTimeout c.writeTimeout).exchange req

/-- **No leak**: when the call returns, each connection it obtained has been closed exactly once. -/
def NoLeak (c : Client A) (pick : Pick A) (dial : Dial A) (req : Request) : Prop :=
  ∀ r, c.DO pick dial req = some r → ∀ n ∈ r.closes, n = 1

/-- A connection that takes a request with this body whole and sends a whole response frame. -/
def NetConn.Serves (nc : NetConn) (body : List UInt8) : Prop :=
  nc.sock.Fits (headerSize + body.length) ∧ Framed nc.resp.stream

/-- If a connection is obtained (and the request has a body), it serves the request. -/
def Served (c : Client A) (pick : Pick A) (dial : Dial A) (req : Request) : Prop :=
  ∀ addr peer body, pick = .addr addr → dial addr c.ConnectTimeout = .ok peer → req.body = some body →
    (peer c.readTimeout c.writeTimeout).Serves body

theorem good_new (nc : NetConn) : (BufWriter.new nc.sock).Good :=
  ⟨rfl, fun _ _ => Nat.zero_le _, Nat.zero_le _⟩

theorem Header.writeTo_eq (h : Header) (w : BufWriter) : h.writeTo w = w.write h.bytes := by
  unfold Header.writeTo
  rw [Header.marshal_eq h _ (by simp)]
  simp

/-- The bytes of a request go out whole exactly when they fit the connection. -/
theorem Request.sent_iff {r : Request} {body : List UInt8} (nc : NetConn) (hbody : r.body = some body) :
    (∃ w, r.writeTo (.new nc.sock) = some (none, w) ∧ w.flush.1 = none) ↔ nc.sock.Fits (headerSize + body.length) := by
  have hhead := BufWriter.hands_write (good_new nc) r.header.bytes
  have hlen : (r.header.bytes ++ body).length = headerSize + body.length := by
    rw [List.length_append, Header.length_bytes]
  unfold Request.writeTo
  rw [Header.writeTo_eq]
  generalize (BufWriter.new nc.sock).write r.header.bytes = r₁ at hhead ⊢
  obtain ⟨e₁, w₁⟩ := r₁
  cases e₁ with
  | some e₁ =>
    constructor
    · rintro ⟨w, hw, -⟩
      cases hw
    · intro hfits
      refine absurd (hfits.mono ?_) (hhead.failed (by simp))
      simp [BufWriter.out, BufWriter.new, NetConn.sock]
  | none =>
    simp only [hbody, Option.some.injEq]
    have hcopy := hhead.trans (BufWriter.hands_readFrom (hhead.taken rfl).1 body)
    generalize w₁.readFrom body = r₂ at hcopy ⊢
    obtain ⟨e₂, w₂⟩ := r₂
    cases e₂ with
    | some e₂ =>
      constructor
      · rintro ⟨w, hw, -⟩
        cases hw
      · intro hfits
        rw [← hlen] at hfits
        exact absurd hfits (hcopy.failed (by simp))
    | none =>
      have hall := hcopy.trans (BufWriter.hands_flush (hcopy.taken rfl).1).1
      rw [List.append_nil] at hall
      constructor
      · rintro ⟨w, hw, hflush⟩
        cases hw
        obtain ⟨hg, hout, hlimit⟩ := hall.taken hflush
        intro k hk
        have hbuf := (BufWriter.hands_flush (hcopy.taken rfl).1).2 hflush
        have hfits := hg.fits k (by rw [hlimit]; exact hk)
        simp only [BufWriter.out, hbuf, BufWriter.new, NetConn.sock, List.append_nil, List.nil_append] at hout
        rw [hout, hlen] at hfits
        exact hfits
      · intro hfits
        refine ⟨w₂, rfl, ?_⟩
        by_contra hne
        refine hall.failed hne ?_
        simpa [BufWriter.out, BufWriter.new, NetConn.sock, hlen, Header.length_bytes] using hfits

theorem Request.writeTo_nil {r : Request} (nc : NetConn) (hbody : r.body = none) : r.writeTo (.new nc.sock) = none := by
  have hhead : (BufWriter.new nc.sock).write r.header.bytes =
      (none, { BufWriter.new nc.sock with buf := r.header.bytes }) := by
    have hle : r.header.bytes.length ≤ (BufWriter.new nc.sock).available := by
      rw [Header.length_bytes]
      exact show headerSize ≤ defaultBufSize - 0 by decide
    simp only [BufWriter.write, if_pos hle]
    rfl
  unfold Request.writeTo
  rw [Header.writeTo_eq, hhead, hbody]

theorem NetConn.exchange_closes {nc : NetConn} {req : Request} {body : List UInt8} (hbody : req.body = some body) :
    ∃ r, nc.exchange req = some r ∧ (r.closes = [1] ∧ nc.Serves body ∨ r.closes = [0] ∧ ¬nc.Serves body) := by
  have hsent := Request.sent_iff nc hbody
  have hread := (readResponse_accepts_frames nc.resp).1
  unfold NetConn.exchange NetConn.Serves
  obtain ⟨e, w, hw⟩ : ∃ e w, req.writeTo (.new nc.sock) = some (e, w) := by
    unfold Request.writeTo
    split
    · exact ⟨_, _, rfl⟩
    · rw [hbody]
      exact ⟨_, _, rfl⟩
  rw [hw] at hsent ⊢
  cases e with
  | some e =>
    have hno : ¬nc.sock.Fits (headerSize + body.length) := by
      rw [← hsent]
      rintro ⟨w, hw, -⟩
      cases hw
    exact ⟨_, rfl, .inr ⟨rfl, fun h => hno h.1⟩⟩
  | none =>
    simp only
    generalize hf : w.flush = f
    obtain ⟨e, w'⟩ := f
    cases e with
    | some e =>
      have hno : ¬nc.sock.Fits (headerSize + body.length) := by
        rw [← hsent]
        rintro ⟨w₁, hw₁, hflush⟩
        cases hw₁
        rw [hf] at hflush
        cases hflush
      exact ⟨_, rfl, .inr ⟨rfl, fun h => hno h.1⟩⟩
    | none =>
      have hfits := hsent.1 ⟨w, rfl, by rw [hf]⟩
      generalize readResponseFrom nc.resp = res at hread ⊢
      obtain ⟨resp, e, rest⟩ := res
      cases e with
      | some e => exact ⟨_, rfl, .inr ⟨rfl, fun h => by cases hread.2 h.2⟩⟩
      | none => exact ⟨_, rfl, .inl ⟨rfl, hfits, hread.1 rfl⟩⟩

/-- **`DO` leaks exactly the connections that do not serve its request**: when it returns, every connection it obtained
has been closed once if and only if there was none, or it took the whole request and sent a whole response. -/
theorem do_closes_iff (c : Client A) (pick : Pick A) (dial : Dial A) (req : Request) :
    NoLeak c pick dial req ↔ Served c pick dial req := by
  cases pick with
  | panicked => simp [NoLeak, Served, Client.DO]
  | error text => simp [NoLeak, Served, Client.DO]
  | addr addr =>
    cases hdial : dial addr c.ConnectTimeout with
    | error text =>
      simp only [NoLeak, Served, Client.DO, hdial]
      constructor
      · intro _ addr' peer body haddr hpeer
        cases haddr
        rw [hdial] at hpeer
        cases hpeer
      · intro _ r hr n hn
        cases hr
        cases hn
    | ok peer =>
      simp only [NoLeak, Served, Client.DO, hdial]
      cases hbody : req.body with
      | none =>
        -- the call panics in `io.Copy`: it does not return
        simp [NetConn.exchange, Request.writeTo_nil _ hbody]
      | some body =>
        obtain ⟨r, hr, hcloses⟩ := @NetConn.exchange_closes (peer c.readTimeout c.writeTimeout) req body hbody
        rw [hr]
        constructor
        · intro hleak addr' peer' body' haddr hpeer hb
          cases haddr
          cases hb
          rw [hdial] at hpeer
          cases hpeer
          rcases hcloses with ⟨-, hserves⟩ | ⟨hzero, -⟩
          · exact hserves
          · cases hleak r rfl 0 (by rw [hzero]; exact List.mem_singleton.2 rfl)
        · intro hserved r' hr' n hn
          cases hr'
          rcases hcloses with ⟨hone, -⟩ | ⟨-, hno⟩
          · rw [hone] at hn
            exact List.mem_singleton.1 hn
          · exact absurd (hserved addr peer body rfl hdial rfl) hno

/-- A request with an empty JSON object, and a backend that closes without answering. -/
def emptyObject : Request := ⟨{ Header.zero with magicNum := headerMagic, bodyLen := 2 }, some [123, 125]⟩

def silentConn : NetConn := ⟨none, "", ⟨[], .eof⟩⟩

theorem do_leaks_on_closed_response :
    ¬ ∀ (c : Client GoString) (pick : Pick GoString) (dial : Dial GoString) (req : Request), NoLeak c pick dial req := by
  intro hall
  have hleak := hall (newClient .ok [Selector.hostA]) (.addr Selector.hostA)
    (fun _ _ => .ok (fun _ _ => silentConn)) emptyObject
  cases hleak ⟨none, some (.read .eof), [0]⟩ (by decide) 0 (by decide)

end Xrtc
