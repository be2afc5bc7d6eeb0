import Xrtc.Offer
import Xrtc.PushAction
import Xrtc.QueryFrame
import Xrtc.Request
import Xrtc.WriteReply
import Xrtc.XrpcConf
/-!
# PushCall — a push, from the form to the answer

`framework.Call` of `framework/xrpc.go` between the HTTP action and the server: the request's bytes reach one connection
of a signaling worker in any cut, the worker queues a message and gets it back with an offer, its write loop sends the
reply in any pieces, and the client reads whatever part of it arrives.  JSON is a parameter on both sides.  Each stage
is a lemma about its own model; `push_answered` puts them together.
-/
namespace Xrtc
namespace PushCall

open PushAction (XrtcPushReq XrtcPushResp)

/-! ## `framework.Call` -/

inductive CallErr where
  | noClient (serviceName : GoString)
  | marshal (text : String)
  | client (e : DoErr)
  | unmarshal (text : String)
  deriving DecidableEq

/-- `Call`; `none` is a panic of `DO`. -/
def call {A Q R : Type} (marshal : Q → Except String (List UInt8)) (unmarshal : List UInt8 → Except String R)
    (clients : XrpcConf.Clients A) (pick : Client A → Pick A) (dial : Dial A) (serviceName : GoString) (request : Q)
    (logId : UInt32) : Option (Except CallErr R) :=
  match clients (XrpcConf.xrpcDot ++ serviceName) with
  | none => some (.error (.noClient serviceName))
  | some client => match marshal request with
    | .error text => some (.error (.marshal text))
    | .ok content => match newRequest (.bytesReader content) logId with
      | none => none
      | some req => match client.DO (pick client) dial req with
        | none => none
        | some ⟨_, some e, _⟩ => some (.error (.client e))
        | some ⟨none, none, _⟩ => none
        | some ⟨some resp, none, _⟩ => match unmarshal resp.body with
          | .error text => some (.error (.unmarshal text))
          | .ok response => some (.ok response)

/-- `"xrtc"`, the service the action calls. -/
def xrtc : GoString := [120, 114, 116, 99]

/-! ## The client's connection -/

/-- What a request puts on a connection. -/
def sentOn (nc : NetConn) (req : Request) : List UInt8 :=
  match req.writeTo (.new nc.sock) with
  | none => []
  | some (some _, w) => w.sock.sent
  | some (none, w) => w.flush.2.sock.sent

/-- **A request that fits goes out whole**, and `DO` is left with what the connection sends back. -/
theorem exchange_of_fits {nc : NetConn} {req : Request} {content : List UInt8} (hbody : req.body = some content)
    (hfits : nc.sock.Fits (headerSize + content.length)) :
    sentOn nc req = req.header.bytes ++ content ∧
    nc.exchange req = match readResponseFrom nc.resp with
      | (_, some e, _) => some ⟨none, some (.read e), [0]⟩
      | (resp, none, _) => some ⟨resp, none, [1]⟩ := by
  obtain ⟨w, hw, hflush⟩ := (Request.sent_iff nc hbody).2 hfits
  have hsent : w.flush.2.sock.sent = req.header.bytes ++ content := by
    -- the writer took the header, then the body, then the flush
    have hhead := BufWriter.hands_write (good_new nc) req.header.bytes
    unfold Request.writeTo at hw
    rw [Header.writeTo_eq] at hw
    generalize (BufWriter.new nc.sock).write req.header.bytes = r₁ at hhead hw
    obtain ⟨e₁, w₁⟩ := r₁
    cases e₁ with
    | some e₁ => cases hw
    | none =>
      simp only [hbody, Option.some.injEq] at hw
      have hcopy := hhead.trans (BufWriter.hands_readFrom (hhead.taken rfl).1 content)
      rw [hw] at hcopy
      have hgood := (hcopy.taken rfl).1
      have hall := hcopy.trans (BufWriter.hands_flush hgood).1
      have hempty := (BufWriter.hands_flush hgood).2 hflush
      have hout := (hall.taken hflush).2.1
      rw [List.append_nil] at hout
      simpa only [BufWriter.out, hempty, BufWriter.new, NetConn.sock, List.append_nil, List.nil_append] using hout
  constructor
  · unfold sentOn
    rw [hw]
    exact hsent
  · cases hf : w.flush with
    | mk e w' =>
      rw [hf] at hflush
      cases hflush
      unfold NetConn.exchange
      rcases readResponseFrom nc.resp with ⟨resp, _ | e, rest⟩
      · simp only [hw, hf]
      · simp only [hw, hf]

/-- **A response is read whole or not at all**: from a prefix of one frame, the frame's body or an error. -/
theorem readResponseFrom_prefix {frame : List UInt8} {r : Reader} (hmagic : magicField frame = headerMagic)
    (hframe : frame.length = headerSize + (bodyLenField frame).toNat) (hp : r.stream <+: frame) :
    (r.stream = frame → ∃ h r', readResponseFrom r = (some ⟨h, frame.drop headerSize⟩, none, r') ∧
      h.bytes = frame.take headerSize) ∧
    (r.stream ≠ frame → ∃ e r', readResponseFrom r = (none, some e, r')) := by
  constructor
  · intro he
    have hl : headerSize ≤ r.stream.length := by rw [he]; omega
    rcases readResponseFrom_of_le hl with ⟨hm, -⟩ | ⟨-, hb, -⟩ | ⟨-, -, h, r', hbytes, -, -, hres⟩
    · exact absurd (he ▸ hmagic) hm
    · rw [he] at hb
      omega
    · rw [he] at hres hbytes
      refine ⟨h, r', ?_, hbytes⟩
      rw [hres, List.take_of_length_le (by rw [List.length_drop]; omega)]
  · intro hne
    have hlt : r.stream.length < frame.length := by
      refine Nat.lt_of_le_of_ne hp.length_le (fun hl => hne (hp.eq_of_length hl))
    rcases Nat.lt_or_ge r.stream.length headerSize with hl | hl
    · have hread := Header.zero.readFrom_of_lt hl
      exact ⟨r.fin.report r.stream, { r with pieces := [] }, by simp only [readResponseFrom, hread]⟩
    · obtain ⟨rest, hrest⟩ := hp
      have hsame : bodyLenField r.stream = bodyLenField frame := by
        unfold bodyLenField
        rw [← hrest, Bytes.sliceOf_append_left (by unfold headerSize at hl; omega)]
      rcases readResponseFrom_of_le hl with ⟨hm, r', -, -, hres⟩ | ⟨-, -, e, r', hres⟩ | ⟨-, hb, -⟩
      · exact ⟨_, r', hres⟩
      · exact ⟨e, r', hres⟩
      · rw [hsame] at hb
        omega

/-! ## The server's connection -/

section Read
variable {outcome : Nat → Int}

/-- What reading does not touch: the reply list, its position and the descriptor. -/
structure Untouched (c c' : TcpConnection) : Prop where
  replyList : c'.replyList = c.replyList
  curRespPos : c'.curRespPos = c.curRespPos
  fd : c'.fd = c.fd

theorem Untouched.trans {c₁ c₂ c₃ : TcpConnection} (h₁ : Untouched c₁ c₂) (h₂ : Untouched c₂ c₃) : Untouched c₁ c₃ :=
  ⟨h₂.replyList.trans h₁.replyList, h₂.curRespPos.trans h₁.curRespPos, h₂.fd.trans h₁.fd⟩

theorem iterate_keeps (outcome : Nat → Int) (s : Query.St) : Untouched s.conn (Query.iterate outcome s).conn ∧
    (Query.iterate outcome s).conn.querybuf = s.conn.querybuf := by
  unfold Query.iterate
  split
  · cases s.conn.currentState with
    | head => dsimp only; split <;> exact ⟨⟨rfl, rfl, rfl⟩, rfl⟩
    | body => dsimp only; split <;> exact ⟨⟨rfl, rfl, rfl⟩, rfl⟩
  · exact ⟨⟨rfl, rfl, rfl⟩, rfl⟩

theorem processQueryBuffer_keeps : ∀ {fuel : Nat} {s s' : Query.St}, Query.processQueryBuffer outcome fuel s = some s' →
    Untouched s.conn s'.conn ∧ s'.conn.querybuf = s.conn.querybuf
  | 0, s, s', h => by
    unfold Query.processQueryBuffer at h
    split at h
    · cases h
    · cases h
      exact ⟨⟨rfl, rfl, rfl⟩, rfl⟩
  | fuel + 1, s, s', h => by
    unfold Query.processQueryBuffer at h
    split at h
    · obtain ⟨h1, h2⟩ := processQueryBuffer_keeps h
      obtain ⟨h3, h4⟩ := iterate_keeps outcome s
      exact ⟨h3.trans h1, h2.trans h4⟩
    · cases h
      exact ⟨⟨rfl, rfl, rfl⟩, rfl⟩

theorem readQueries_keeps {fuel : Nat} : ∀ {cuts : List (Nat × List UInt8)} {s s' : Query.St},
    Query.readQueries outcome fuel s cuts = some s' →
    Untouched s.conn s'.conn ∧ s'.conn.querybuf = s.conn.querybuf ++ (cuts.map Prod.snd).flatten
  | [], s, s', h => by
    cases h
    exact ⟨⟨rfl, rfl, rfl⟩, by simp⟩
  | cut :: cuts, s, s', h => by
    obtain ⟨s₁, h1, h2⟩ := Option.bind_eq_some_iff.1 h
    unfold Query.readQuery at h1
    split at h1
    · obtain ⟨h3, h4⟩ := processQueryBuffer_keeps h1
      obtain ⟨h5, h6⟩ := readQueries_keeps h2
      have hread : Untouched s.conn (Query.readStep s cut.1 (.bytes cut.2)).conn ∧
          (Query.readStep s cut.1 (.bytes cut.2)).conn.querybuf = s.conn.querybuf ++ cut.2 := by
        cases hb : cut.2 with
        | nil => exact ⟨⟨rfl, rfl, rfl⟩, (List.append_nil _).symm⟩
        | cons b bs => exact ⟨⟨rfl, rfl, rfl⟩, rfl⟩
      refine ⟨hread.1.trans (h3.trans h5), ?_⟩
      rw [h6, h4, hread.2, List.map_cons, List.flatten_cons, List.append_assoc]
    · cases h1

/-- **However a frame is cut, it is handed over once**, and the connection holds it and nothing else. -/
theorem read_frame (outcome : Nat → Int) {hd : Header} {content : List UInt8} (fd : Int) (hmagic : hd.magicNum = headerMagic)
    (hlen : hd.bodyLen.toNat = content.length) {cuts : List (Nat × List UInt8)} (hne : ∀ c ∈ cuts, c.2 ≠ [])
    (hcuts : (cuts.map Prod.snd).flatten = hd.bytes ++ content) (hsmall : content.length < 2 ^ 29) :
    ∃ s, Query.readQueries outcome 3 (Query.init fd) cuts = some s ∧ s.calls = [⟨hd.bytes, content⟩] ∧
      s.conn.querybuf = hd.bytes ++ content ∧ s.conn.replyList = [] ∧ s.conn.curRespPos = 0 := by
  have hcuts0 : cuts ≠ [] := by
    intro h0
    have := congrArg List.length hcuts
    simp [h0, headerSize] at this
    omega
  obtain ⟨front, last, rfl⟩ : ∃ front last, cuts = front ++ [last] :=
    ⟨cuts.dropLast, cuts.getLast hcuts0, (List.dropLast_append_getLast hcuts0).symm⟩
  have hfr : hd.bytes ++ content = (front.map Prod.snd).flatten ++ last.2 := by
    rw [← hcuts]
    simp
  obtain ⟨s₁, hs₁, h₁, hi₁, hc₁⟩ := @Query.readQueries_partial outcome hd content 3 (Nat.le_refl 3) hlen front
    (Query.init fd) [] last.2 Query.inv_init rfl rfl (fun c hc => hne c (List.mem_append_left _ hc))
    (by rw [hfr, List.nil_append]) (hne last (by simp))
  rw [List.nil_append] at h₁
  obtain ⟨s₂, hq, h₂, hl₂, hc₂⟩ := Query.readQuery_looping last.1 3 h₁ hi₁ (hne last (by simp))
  rw [← hfr] at h₂
  have hmark : (hd.bytes ++ content).length < Query.bodyLenOf (hd.bytes ++ content) + Query.doneMark := by
    rw [Query.bodyLenOf_frame, hlen, List.length_append, Header.length_bytes]
    unfold headerSize Query.doneMark
    omega
  obtain ⟨s₃, hs₃, -, hc₃⟩ := Query.processQueryBuffer_frame h₂ hl₂ (hc₂.trans hc₁) (Query.frameIn_frame hmagic hlen)
    hmark (Nat.le_refl 3)
  have hrun : Query.readQueries outcome 3 (Query.init fd) (front ++ [last]) = some s₃ := by
    rw [Query.readQueries_append, hs₁, Option.bind_some, Query.readQueries, hq, hs₃, Option.bind_some, Query.readQueries]
  obtain ⟨hkeep, hbuf⟩ := readQueries_keeps hrun
  refine ⟨s₃, hrun, ?_, ?_, hkeep.replyList, hkeep.curRespPos⟩
  · rw [hc₃, Query.bodyLenOf_frame, hlen, ← hd.length_bytes, List.take_left, List.drop_left, List.take_length]
  · rw [hbuf, hcuts]
    rfl

end Read

/-! ## The message and its reply -/

/-- jsoncpp reads in a text the push request that Go's encoder wrote there. -/
def Understands (J : Request.Jsoncpp) (content : List UInt8) (req : XrtcPushReq) : Prop :=
  ∃ root root', J.parse content = .returned root "" ∧ Request.cmdnoOf J root = .ok (req.cmdno, root') ∧
    Request.pushFieldsOf J root' = .ok ⟨req.uid, req.streamName, req.audio, req.video⟩

/-- The message queued for a request on a connection of a worker. -/
def messageOf {W : Type} (this : W) (conn : Addr) (fd : Int) (logId : UInt32) (req : XrtcPushReq) : RtcMsg W :=
  { cmdno := cmdnoPush, uid := req.uid, streamName := req.streamName, audio := req.audio, video := req.video
    logId := logId, worker := some this, conn := some conn, fd := fd }

theorem processRequest_push {W : Type} {J : Request.Jsoncpp} {header content : List UInt8} {req : XrtcPushReq}
    (h : Understands J content req) (hcmd : req.cmdno = cmdnoPush) (this : W) (conn : Addr) (fd : Int)
    (queue : List (RtcMsg W)) : Request.processRequest J 4 this conn fd header content queue =
      (.ok 0, queue ++ [messageOf this conn fd (xheadAt header).logId req]) := by
  obtain ⟨root, root', hparse, hcmdno, hfields⟩ := h
  simp only [Request.processRequest, hparse, hcmdno, hcmd, Request.processPush, hfields, Request.sendRtcMsg]
  rfl

theorem replyTarget_of_slot {W : Type} {conns : List (Option Addr)} {msg : RtcMsg W} {conn : Addr}
    (hconn : msg.conn = some conn) (hfd : 0 ≤ msg.fd) (hlt : msg.fd < (conns.length : Int))
    (hslot : conns.getD msg.fd.toNat none = some conn) : Offer.replyTarget conns msg = some conn := by
  have hin : ¬(msg.fd < 0 ∨ (conns.length : Int) ≤ msg.fd) := by omega
  unfold Offer.replyTarget
  simp only [hconn, if_neg hin, hslot, ne_eq, not_true_eq_false, if_false]

/-- **The reply to a message is one frame**: the request's header up to `body_len`, the JSON's length, the JSON. -/
theorem reply_frame {W : Type} (writeString : Offer.JsonObj → List UInt8) (block : Nat → UInt8)
    {conns : List (Option Addr)} {heap : Addr → TcpConnection} {msg : RtcMsg W} {conn : Addr} {hd : Header}
    {content : List UInt8} (hbuf : (heap conn).querybuf = hd.bytes ++ content) (hmagic : hd.magicNum = headerMagic)
    (hslot : Offer.replyTarget conns msg = some conn) (hnul : 0 ∉ Offer.jsonData writeString msg)
    (hshort : (Offer.jsonData writeString msg).length < maxResBuf) :
    ∃ reply, Offer.responseServerOffer writeString (some block) conns heap msg = some (conn, reply) ∧
      magicField reply.bytes = headerMagic ∧
      reply.bytes.length = headerSize + (bodyLenField reply.bytes).toNat ∧
      reply.bytes.drop headerSize = Offer.jsonData writeString msg ∧
      (xheadAt reply.bytes).logId = hd.logId := by
  refine ⟨Offer.replySlice block (heap conn).querybuf (Offer.jsonData writeString msg),
    by simp only [Offer.responseServerOffer, hslot], ?_⟩
  generalize Offer.jsonData writeString msg = json at hnul hshort ⊢
  have hle : headerSize ≤ (heap conn).querybuf.length := by
    rw [hbuf, List.length_append, Header.length_bytes]
    omega
  have hsize := @Offer.size_of_short block (heap conn).querybuf json hshort
  have hbytes := Offer.bytes_of_short block hnul hle hshort
  have hnat := Offer.toNat_ofNat_of_short hshort
  obtain ⟨hmag, hlen⟩ := Offer.header_fields hle (UInt32.ofNat json.length)
  have h32 : ((heap conn).querybuf.take 32).length = 32 := by
    rw [List.length_take]
    unfold headerSize at hle
    omega
  have h36 : headerSize ≤ ((heap conn).querybuf.take 32 ++ putUint32 (UInt32.ofNat json.length)).length := by
    rw [List.length_append, h32, length_putUint32]
    exact Nat.le_refl _
  have hfields : xheadAt (Offer.replySlice block (heap conn).querybuf json).bytes =
      xheadAt ((heap conn).querybuf.take 32 ++ putUint32 (UInt32.ofNat json.length)) := by
    rw [hbytes, xheadAt_append h36]
  have hx : ∀ buf : List UInt8, magicField buf = (xheadAt buf).magicNum ∧ bodyLenField buf = (xheadAt buf).bodyLen :=
    fun _ => ⟨rfl, rfl⟩
  refine ⟨?_, ?_, ?_, ?_⟩
  · rw [(hx _).1, hfields, hmag, hbuf, (xheadAt_bytes hd content).2.1, hmagic]
  · rw [(hx _).2, hfields, hlen, hnat, Slice.length_bytes, hsize]
  · have hdrop : ((heap conn).querybuf.take 32 ++ putUint32 (UInt32.ofNat json.length)).length = headerSize := by
      rw [List.length_append, h32, length_putUint32]
      rfl
    rw [hbytes, ← hdrop, List.drop_left]
  · rw [hfields]
    have hlog : Bytes.sliceOf ((heap conn).querybuf.take 32 ++ putUint32 (UInt32.ofNat json.length)) 4 8 =
        Bytes.sliceOf (heap conn).querybuf 4 8 := by
      rw [Bytes.sliceOf_append_left (by omega), Bytes.sliceOf_take (by omega) (by unfold headerSize at hle; omega)]
    have hid := (xheadAt_bytes hd content).1
    rw [← hbuf] at hid
    simp only [xheadAt] at hid ⊢
    rw [hlog, hid]

/-- **What the write loop has sent of one reply is a prefix of it**, from the connection the request was read on. -/
theorem accepted_of_run {conn : Addr} {fd : Int} {c : TcpConnection} {reply : Slice} {ls : List WriteReply.Label}
    {w : WriteReply.St} (hlist : c.replyList = []) (hpos : c.curRespPos = 0)
    (h : Lts.run (Lts.guarded WriteReply.Fits WriteReply.step) { WriteReply.init conn fd with conn := c } ls = some w)
    (hadded : w.added = [reply]) : w.accepted <+: reply.bytes := by
  have hstart : WriteReply.Inv { WriteReply.init conn fd with conn := c } := by
    refine ⟨?_, ?_, ?_, ?_⟩
    · simp [WriteReply.init, hlist]
    · simp [WriteReply.init, WriteReply.front, hlist]
    · simp [WriteReply.posOk, hlist, hpos]
    · intro r hr
      dsimp only at hr
      rw [hlist] at hr
      cases hr
  have hinv : WriteReply.Inv w :=
    Lts.Via.invariant hstart (fun _ _ _ hi hok hs => WriteReply.inv_step hi hok hs) (Lts.Via.of_run .start h)
  have hall : w.accepted ++ (w.conn.replyList.flatMap Slice.bytes).drop w.conn.curRespPos = reply.bytes := by
    have hone : reply.bytes = w.added.flatMap Slice.bytes := by
      rw [hadded]
      simp
    rw [hone, hinv.taken, List.append_assoc, WriteReply.front_append_drop hinv.pos, hinv.split, List.flatMap_append]
  exact ⟨_, hall⟩

/-! ## The action's answer -/

/-- The request `Execute` makes of a valid form. -/
def requestOf (form : PushAction.Form) : XrtcPushReq :=
  ⟨PushAction.cmdnoPush, UInt64.ofNat (GoText.decimal (form.value PushAction.uidKey)),
    form.value PushAction.streamNameKey, PushAction.flagOf (form.value PushAction.audioKey),
    PushAction.flagOf (form.value PushAction.videoKey)⟩

theorem execute_valid {form : PushAction.Form} (h : PushAction.Valid form) (call : PushAction.Call) (logId : UInt32) :
    PushAction.execute call logId form = match call (requestOf form) logId with
      | .error text => PushAction.writeJsonErrorResponse ⟨PushAction.networkErr, .callFailed text⟩ [requestOf form]
      | .ok resp =>
        if resp.errno ≠ 0 then
          PushAction.writeJsonErrorResponse ⟨PushAction.networkErr, .backend resp.errno⟩ [requestOf form]
        else ⟨false, [requestOf form], [⟨0, "success", some ⟨"offer", resp.offer⟩⟩]⟩ := by
  obtain ⟨⟨hne, hall, hlo, hhi⟩, hname⟩ := h
  have hparse := (GoText.parseUint_ok_iff (form.value PushAction.uidKey) _).2 ⟨⟨hne, hall, Nat.zero_le _, hhi⟩, rfl⟩
  have hcond : ¬((none : Option GoText.NumError) ≠ none ∨ GoText.decimal (form.value PushAction.uidKey) ≤ 0) := by
    simp only [ne_eq, not_true_eq_false, false_or]
    omega
  unfold PushAction.execute PushAction.parseUid
  rw [hparse]
  simp only [if_neg hcond, if_neg hname]
  rfl

/-- **A push is answered with its offer or with an error.**  A valid form's request, cut anyhow into the reads of a
fresh connection, is handed over once and queued as the one message that carries the form's parameters and the log id.
The reply to that message, filled by the worker that got it, is one frame; whatever part of it the write loop has sent
and the client's connection delivers, in whatever pieces and with whatever end, the action writes the offer if the frame
is there whole and a process error if it is not. -/
theorem push_answered {A W : Type} (J : Request.Jsoncpp) (writeString : Offer.JsonObj → List UInt8)
    (marshal : XrtcPushReq → Except String (List UInt8)) (unmarshal : List UInt8 → Except String XrtcPushResp)
    (clients : XrpcConf.Clients A) (pick : Client A → Pick A) (dial : Dial A) (text : CallErr → String)
    (form : PushAction.Form) (logId : UInt32) (hvalid : PushAction.Valid form)
    -- JSON, on the way there
    (content : List UInt8) (hmarshal : marshal (requestOf form) = .ok content) (hsmall : content.length < 2 ^ 29)
    (hunderstands : Understands J content (requestOf form))
    -- the client's connection
    (client : Client A) (a : A) (peer : Int → Int → NetConn) (req : Request)
    (hclient : clients (XrpcConf.xrpcDot ++ xrtc) = some client) (hpick : pick client = .addr a)
    (hdial : dial a client.ConnectTimeout = .ok peer) (hreq : newRequest (.bytesReader content) logId = some req)
    (hfits : (peer client.readTimeout client.writeTimeout).sock.Fits (headerSize + content.length))
    -- the server's connection
    (outcome : Nat → Int) (this : W) (conn : Addr) (fd : Int) (hfd : 0 ≤ fd) (cuts : List (Nat × List UInt8))
    (hne : ∀ c ∈ cuts, c.2 ≠ [])
    (hcuts : (cuts.map Prod.snd).flatten = sentOn (peer client.readTimeout client.writeTimeout) req) :
    ∃ s hdr, Query.readQueries outcome 3 (Query.init fd) cuts = some s ∧ s.calls = [⟨hdr, content⟩] ∧
      (∀ queue, Request.processRequest J 4 this conn fd hdr content queue =
        (.ok 0, queue ++ [messageOf this conn fd logId (requestOf form)])) ∧
      ∀ conns heap block json errMsg, heap conn = s.conn → fd < (conns.length : Int) →
        conns.getD fd.toNat none = some conn →
        json = Offer.jsonData writeString (Pipeline.fillOffer (messageOf this conn fd logId (requestOf form))) →
        0 ∉ json → json.length < maxResBuf → unmarshal json = .ok ⟨0, errMsg, Pipeline.offer⟩ →
        ∃ reply, Offer.responseServerOffer writeString (some block) conns heap
            (Pipeline.fillOffer (messageOf this conn fd logId (requestOf form))) = some (conn, reply) ∧
          (xheadAt reply.bytes).logId = logId ∧
          ∀ ls w, Lts.run (Lts.guarded WriteReply.Fits WriteReply.step)
              { WriteReply.init conn fd with conn := s.conn } ls = some w → w.added = [reply] →
            (peer client.readTimeout client.writeTimeout).resp.stream <+: w.accepted →
            ∀ callXrtc : PushAction.Call, some (callXrtc (requestOf form) logId) =
                (call marshal unmarshal clients pick dial xrtc (requestOf form) logId).map (fun r => r.mapError text) →
              PushAction.execute callXrtc logId form =
                if (peer client.readTimeout client.writeTimeout).resp.stream = reply.bytes
                then ⟨false, [requestOf form], [⟨0, "success", some ⟨"offer", Pipeline.offer⟩⟩]⟩
                else ⟨false, [requestOf form], [⟨PushAction.networkErr, "process error", none⟩]⟩ := by
  generalize hnc : peer client.readTimeout client.writeTimeout = nc at hfits hcuts ⊢
  -- what the client sends
  have hlen32 : (UInt32.ofNat content.length).toNat = content.length := by
    rw [UInt32.toNat_ofNat']
    exact Nat.mod_eq_of_lt (by omega)
  have hreq' : req = ⟨{ Header.zero with logId := logId, magicNum := headerMagic, bodyLen := UInt32.ofNat content.length },
      some content⟩ := by
    simp only [newRequest, hlen32, List.take_length, Option.some.injEq] at hreq
    exact hreq.symm
  have hbody : req.body = some content := by rw [hreq']
  have hmagic : req.header.magicNum = headerMagic := by rw [hreq']
  have hlog : req.header.logId = logId := by rw [hreq']
  have hlen : req.header.bodyLen.toNat = content.length := by rw [hreq', hlen32]
  obtain ⟨hsent, hexchange⟩ := exchange_of_fits hbody hfits
  rw [hsent] at hcuts
  -- what the server makes of it
  obtain ⟨s, hs, hcalls, hbuf, hlist, hpos⟩ := read_frame outcome fd hmagic hlen hne hcuts hsmall
  refine ⟨s, req.header.bytes, hs, hcalls, fun queue => ?_, ?_⟩
  · have hhead := (xheadAt_bytes req.header []).1
    rw [List.append_nil] at hhead
    rw [processRequest_push hunderstands rfl, hhead, hlog]
  intro conns heap block json errMsg hheap hlt hslot hjson hnul hshort hunmarshal
  subst hjson
  have htarget : Offer.replyTarget conns (Pipeline.fillOffer (messageOf this conn fd logId (requestOf form))) =
      some conn := replyTarget_of_slot rfl hfd hlt hslot
  have hheld : (heap conn).querybuf = req.header.bytes ++ content := by rw [hheap, hbuf]
  obtain ⟨reply, hreply, hmag, hframe, hdrop, hid⟩ := reply_frame writeString block hheld hmagic htarget hnul hshort
  refine ⟨reply, hreply, hid.trans hlog, fun ls w hrun hadded hdelivered callXrtc hcall => ?_⟩
  -- what the client makes of the reply
  have hprefix := hdelivered.trans (accepted_of_run hlist hpos hrun hadded)
  obtain ⟨hwhole, hpart⟩ := readResponseFrom_prefix hmag hframe hprefix
  have hDO : client.DO (pick client) dial req = nc.exchange req := by
    simp only [Client.DO, hpick, hdial, hnc]
  rw [execute_valid hvalid]
  unfold call at hcall
  simp only [hclient, hmarshal, hreq, hDO, hexchange] at hcall
  by_cases he : nc.resp.stream = reply.bytes
  · obtain ⟨h, r', hres, -⟩ := hwhole he
    rw [if_pos he]
    simp only [hres, hdrop, hunmarshal, Option.map_some, Option.some.injEq, Except.mapError] at hcall
    rw [hcall]
    rfl
  · obtain ⟨e, r', hres⟩ := hpart he
    rw [if_neg he]
    simp only [hres, Option.map_some, Option.some.injEq, Except.mapError] at hcall
    rw [hcall]
    rfl

/-! ## One push to run -/

/-- A reply that goes out in two writes. -/
theorem written_in_two (conn : Addr) (fd : Int) (conns : List (Option Addr)) (k : Nat) {c : TcpConnection} {reply : Slice}
    (hlist : c.replyList = []) (hpos : c.curRespPos = 0) (htarget : WriteReply.writeTarget conns fd = some conn)
    (hk : 0 < k ∧ k < reply.size) :
    ∃ w, Lts.run (Lts.guarded WriteReply.Fits WriteReply.step) { WriteReply.init conn fd with conn := c }
        [.addReply reply, .writeReply conns fd, .iter 1 (.wrote k), .iter 2 (.wrote (reply.size - k))] = some w ∧
      w.added = [reply] ∧ w.accepted = reply.bytes := by
  have hk0 : ¬((k : Int) = -1) := by omega
  have hk1 : ¬((k : Int) = 0) := by omega
  have hk2 : ¬(reply.size ≤ k) := by omega
  have hr0 : ¬(((reply.size - k : Nat) : Int) = -1) := by omega
  have hr1 : ¬(((reply.size - k : Nat) : Int) = 0) := by omega
  have hr2 : reply.size ≤ reply.size - k + k := by omega
  have hsize : 0 < reply.size := by omega
  have hfit : k ≤ reply.size := by omega
  simp only [Lts.run, Lts.guarded, WriteReply.Fits, WriteReply.step, WriteReply.init, WriteReply.addReply,
    WriteReply.iterate, WriteReply.sockWriteData, hlist, hpos, htarget, hsize, hfit, hk0, hk1, hk2, hr0, hr1, hr2, if_true,
    if_false, Option.bind_some, List.nil_append, List.head?_cons, Option.mem_some_iff, forall_eq', Nat.sub_zero, Nat.add_zero,
    Nat.zero_add, Int.toNat_natCast, Nat.le_refl]
  refine ⟨_, rfl, rfl, ?_⟩
  dsimp only
  rw [WriteReply.taken_extend, Slice.bytes_eq]
  congr 1
  omega

/-- `uid=7&streamName=a&audio=1`, and the object Go's encoder makes of its request. -/
def pushForm : PushAction.Form := fun key =>
  if key = PushAction.uidKey then some ⟨[55], []⟩ else if key = PushAction.streamNameKey then some ⟨[97], []⟩
  else if key = PushAction.audioKey then some ⟨[49], []⟩ else none

theorem pushForm_valid : PushAction.Valid pushForm := by
  refine ⟨⟨by decide, fun c hc => ?_, by decide, by decide⟩, by decide⟩
  rw [List.mem_singleton.1 hc]
  rfl

def pushText : List UInt8 := Offer.text
  ['{', '"', 'c', 'm', 'd', 'n', 'o', '"', ':', '1', ',', '"', 'u', 'i', 'd', '"', ':', '7', ',', '"', 's', 't', 'r', 'e', 'a',
    'm', 'N', 'a', 'm', 'e', '"', ':', '"', 'a', '"', ',', '"', 'a', 'u', 'd', 'i', 'o', '"', ':', '1', ',', '"', 'v', 'i', 'd',
    'e', 'o', '"', ':', '0', '}']

inductive Node where
  | null
  | leaf (v : Offer.JsonVal)
  | root

/-- jsoncpp on documents that are `pushText` or not JSON. -/
def pushReader : Request.Jsoncpp where
  Value := Node
  Exception := String
  parse doc := if doc = pushText then .returned .root "" else .returned .null "Syntax error: value, object or array expected."
  index v key := match v with
    | .root => .ok (if key = "cmdno" then .leaf (.int 1) else .null, .root)
    | _ => .error "requires objectValue"
  constIndex v key := match v with
    | .root => .ok (if key = "uid" then .leaf (.int 7) else if key = "streamName" then .leaf (.str [97])
        else if key = "audio" then .leaf (.int 1) else if key = "video" then .leaf (.int 0) else .null)
    | _ => .error "requires objectValue"
  asInt v := match v with
    | .leaf (.int i) => .ok i
    | _ => .error "Value is not convertible to Int."
  asUInt64 v := match v with
    | .leaf (.int i) => .ok (UInt64.ofNat i.toNat)
    | _ => .error "Value is not convertible to UInt64."
  asString v := match v with
    | .leaf (.str s) => .ok s
    | _ => .error "Type is not convertible to string"
  depth _ := 2
  stackLimit := 1000
  throws_iff doc := by
    refine iff_of_false ?_ (by decide)
    rintro ⟨e, he⟩
    by_cases h : doc = pushText
    · rw [if_pos h] at he
      cases he
    · rw [if_neg h] at he
      cases he

def answered : RtcMsg Unit := Pipeline.fillOffer (messageOf () 7 1 9 (requestOf pushForm))

def answerJson : List UInt8 := Offer.jsonData Offer.compactString answered

def processSuccess : GoString := Offer.text Offer.processSuccess

def goMarshal (req : XrtcPushReq) : Except String (List UInt8) :=
  if req = requestOf pushForm then .ok pushText else .error "unsupported"

def goUnmarshal (doc : List UInt8) : Except String XrtcPushResp :=
  if doc = answerJson then .ok ⟨0, processSuccess, Pipeline.offer⟩ else .error "unexpected end of JSON input"

def pushHeader : Header :=
  { Header.zero with logId := 9, magicNum := headerMagic, bodyLen := UInt32.ofNat pushText.length }

def answerFrame : List UInt8 := pushHeader.bytes.take 32 ++ putUint32 (UInt32.ofNat answerJson.length) ++ answerJson

/-- A backend that sends `answerFrame` in two pieces, and the client for it. -/
def pushConn : NetConn := ⟨none, "", ⟨[answerFrame.take 20, answerFrame.drop 20], .eof⟩⟩

def pushClient : Client GoString := newClient .ok [Selector.hostA]

def pushClients : XrpcConf.Clients GoString := fun name =>
  if name = XrpcConf.xrpcDot ++ xrtc then some pushClient else none

def pushDial : Dial GoString := fun _ _ => .ok (fun _ _ => pushConn)

def callPush : Option (Except CallErr XrtcPushResp) :=
  call goMarshal goUnmarshal pushClients (fun _ => .addr Selector.hostA) pushDial xrtc (requestOf pushForm) 9

theorem push_answered_whole :
    PushAction.execute (fun _ _ => (callPush.getD (.error (.noClient xrtc))).mapError (fun _ => "")) 9 pushForm =
      ⟨false, [requestOf pushForm], [⟨0, "success", some ⟨"offer", Pipeline.offer⟩⟩]⟩ := by
  obtain ⟨s, hdr, hs, -, -, hanswer⟩ := push_answered pushReader Offer.compactString goMarshal goUnmarshal pushClients
    (fun _ => .addr Selector.hostA) pushDial (fun _ => "") pushForm 9 pushForm_valid pushText (by decide) (by decide)
    ⟨.root, .root, rfl, rfl, rfl⟩ pushClient Selector.hostA (fun _ _ => pushConn) ⟨pushHeader, some pushText⟩ (by decide) rfl
    rfl (by decide) (by decide) (fun _ => 0) () 7 1 (by decide)
    [(1, (pushHeader.bytes ++ pushText).take 10), (2, (pushHeader.bytes ++ pushText).drop 10)] (by decide) (by decide +kernel)
  obtain ⟨hkeep, hbuf⟩ := readQueries_keeps hs
  have hheld : s.conn.querybuf = pushHeader.bytes ++ pushText := by
    rw [hbuf]
    decide
  obtain ⟨reply, hreply, -, hrun⟩ := hanswer [none, some 7] (fun _ => s.conn) (fun _ => 255) answerJson processSuccess rfl
    (by decide) (by decide) rfl (by decide +kernel) (by decide +kernel) (by decide +kernel)
  have htarget : Offer.replyTarget [none, some 7] answered = some 7 := by decide
  have hslice : reply = Offer.replySlice (fun _ => 255) (pushHeader.bytes ++ pushText) answerJson := by
    have hsame : Offer.responseServerOffer Offer.compactString (some (fun _ => 255)) [none, some 7] (fun _ => s.conn) answered =
        some (7, Offer.replySlice (fun _ => 255) s.conn.querybuf answerJson) := by
      simp only [Offer.responseServerOffer, htarget]
      rfl
    rw [← hheld]
    exact (Prod.mk.inj (Option.some.inj (hreply.symm.trans hsame))).2
  have hbytes : reply.bytes = answerFrame := by
    rw [hslice, Offer.bytes_of_short _ (by decide +kernel) (by decide) (by decide +kernel)]
    decide +kernel
  have hsize : 40 < reply.size := by
    rw [← Slice.length_bytes, hbytes]
    decide +kernel
  obtain ⟨w, hw, hadded, haccepted⟩ := written_in_two 7 1 [none, some 7] 40 hkeep.replyList hkeep.curRespPos
    (by decide) ⟨by decide, hsize⟩
  have hstream : pushConn.resp.stream = reply.bytes := by
    rw [hbytes]
    decide +kernel
  have hdone := hrun _ w hw hadded (by rw [haccepted, hstream])
    (fun _ _ => (callPush.getD (.error (.noClient xrtc))).mapError (fun _ => "")) ?_
  · rwa [if_pos hstream] at hdone
  · obtain ⟨r, hr⟩ := Option.isSome_iff_exists.1 (show callPush.isSome = true by decide +kernel)
    show _ = callPush.map _
    rw [hr]
    rfl

end PushCall
end Xrtc
