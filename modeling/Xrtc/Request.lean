import Xrtc.Pipeline
/-!
# Request — one request body, from the bytes to the queued message

`SignalingWorker::process_request_` and `process_push_` (`server/signaling_worker.cpp`) up to `RtcServer::send_rtc_msg`.
jsoncpp is a parameter (`Jsoncpp`): what its headers document is that `parse` reports errors through `errs`, throws when
the recursion of `readValue()` exceeds `stackLimit`, and that lookups and conversions yield a value or throw.  An
exception that no `catch` takes is the call's result.
-/
namespace Xrtc
namespace Request

/-- What `CharReader::parse` does: it returns, with a root and an error text, or it throws. -/
inductive ParseResult (V E : Type) where
  | returned (root : V) (errs : String)
  | threw (e : E)

/-- The part of jsoncpp the two functions use; `Exception` is `Json::Exception` with everything derived from it. -/
structure Jsoncpp where
  Value : Type
  Exception : Type
  parse : List UInt8 → ParseResult Value Exception
  /-- `operator[]` of a non-const value: the member, and the value with the member made null if it was missing. -/
  index : Value → String → Except Exception (Value × Value)
  constIndex : Value → String → Except Exception Value
  asInt : Value → Except Exception Int
  asUInt64 : Value → Except Exception UInt64
  asString : Value → Except Exception (List UInt8)
  /-- The recursive depth of `readValue()` on a document. -/
  depth : List UInt8 → Nat
  stackLimit : Nat
  throws_iff : ∀ doc, (∃ e, parse doc = .threw e) ↔ stackLimit < depth doc

variable {W : Type}

/-- `RtcServer::notify` given what its `write` returned. -/
def notify (written : Int) : Int := if written = 4 then 0 else -1

/-- `RtcServer::send_rtc_msg`: the message is queued, then notified. -/
def sendRtcMsg (written : Int) (msg : RtcMsg W) (queue : List (RtcMsg W)) : Int × List (RtcMsg W) :=
  (notify written, queue ++ [msg])

/-- The body of the `try` of `process_request_`: the command number, and `root` as the lookup leaves it. -/
def cmdnoOf (J : Jsoncpp) (root : J.Value) : Except J.Exception (Int × J.Value) := do
  let (member, root) ← J.index root "cmdno"
  let cmdno ← J.asInt member
  return (cmdno, root)

/-- The four local variables of `process_push_`. -/
structure PushFields where
  uid : UInt64
  streamName : List UInt8
  audio : Int
  video : Int
  deriving DecidableEq

/-- The body of the `try` of `process_push_`. -/
def pushFieldsOf (J : Jsoncpp) (root : J.Value) : Except J.Exception PushFields := do
  let uid ← J.asUInt64 (← J.constIndex root "uid")
  let streamName ← J.asString (← J.constIndex root "streamName")
  let audio ← J.asInt (← J.constIndex root "audio")
  let video ← J.asInt (← J.constIndex root "video")
  return ⟨uid, streamName, audio, video⟩

/-- `process_push_` of worker `this` on the connection at address `conn` with descriptor `fd`. -/
def processPush (J : Jsoncpp) (written : Int) (this : W) (cmdno : Int) (conn : Addr) (fd : Int) (root : J.Value)
    (logId : UInt32) (queue : List (RtcMsg W)) : Except J.Exception Int × List (RtcMsg W) :=
  match pushFieldsOf J root with
  | .error _ => (.ok (-1), queue)
  | .ok f =>
    let msg : RtcMsg W :=
      { cmdno := cmdno, uid := f.uid, streamName := f.streamName, audio := f.audio, video := f.video, logId := logId
        worker := some this, conn := some conn, fd := fd }
    let (ret, queue) := sendRtcMsg written msg queue
    (.ok ret, queue)

/-- `process_request_`; `.error` is an exception that leaves the function. -/
def processRequest (J : Jsoncpp) (written : Int) (this : W) (conn : Addr) (fd : Int) (header body : List UInt8)
    (queue : List (RtcMsg W)) : Except J.Exception Int × List (RtcMsg W) :=
  let logId := (xheadAt header).logId
  -- the call of `parse` stands outside the `try`
  match J.parse body with
  | .threw e => (.error e, queue)
  | .returned root errs =>
    if errs ≠ "" then (.ok (-1), queue)
    else match cmdnoOf J root with
      | .error _ => (.ok (-1), queue)
      | .ok (cmdno, root) =>
        if cmdno = cmdnoPush then processPush J written this cmdno conn fd root logId queue
        else (.ok 0, queue)

/-- What a request whose body parsed to `root` and `errs` must return and leave in the queue. -/
def Meets (J : Jsoncpp) (this : W) (conn : Addr) (fd : Int) (logId : UInt32) (root : J.Value) (errs : String)
    (queue : List (RtcMsg W)) (ret : Int) (queue' : List (RtcMsg W)) : Prop :=
  (errs ≠ "" → ret < 0 ∧ queue' = queue) ∧
  (errs = "" → (∀ e, cmdnoOf J root = .error e → ret < 0 ∧ queue' = queue) ∧
    ∀ cmdno root', cmdnoOf J root = .ok (cmdno, root') →
      (cmdno ≠ cmdnoPush → queue' = queue) ∧
      (cmdno = cmdnoPush → (∀ e, pushFieldsOf J root' = .error e → ret < 0 ∧ queue' = queue) ∧
        ∀ f, pushFieldsOf J root' = .ok f → queue' = queue ++ [
          { cmdno := cmdnoPush, uid := f.uid, streamName := f.streamName, audio := f.audio, video := f.video
            logId := logId, worker := some this, conn := some conn, fd := fd }]))

/-- **What a request must do**: return; a negative value and nothing queued when parsing, a lookup or a conversion
failed; exactly one message, with the converted fields, for a push; nothing queued for another command. -/
def Handled (J : Jsoncpp) (this : W) (conn : Addr) (fd : Int) (header body : List UInt8) : Prop :=
  ∀ queue : List (RtcMsg W), ∃ ret queue', processRequest J 4 this conn fd header body queue = (.ok ret, queue') ∧
    ∀ root errs, J.parse body = .returned root errs →
      Meets J this conn fd (xheadAt header).logId root errs queue ret queue'

/-- The message a push queues is the one the pipeline starts with. -/
theorem processPush_msg {ns : Nat} {J : Jsoncpp} {written : Int} {i : Fin ns} {conn : Addr} {fd : Int} {root : J.Value}
    {logId : UInt32} {queue : List (RtcMsg (Fin ns))} {f : PushFields} (h : pushFieldsOf J root = .ok f) :
    (processPush J written i cmdnoPush conn fd root logId queue).2 =
      queue ++ [Pipeline.processPush i ⟨f.uid, f.streamName, f.audio, f.video, logId, conn, fd⟩] := by
  simp only [processPush, h, sendRtcMsg, Pipeline.processPush]

theorem handled_of_returned {J : Jsoncpp} {this : W} {conn : Addr} {fd : Int} {header body : List UInt8}
    {root : J.Value} {errs : String} (hp : J.parse body = .returned root errs) :
    Handled J this conn fd header body := by
  intro queue
  suffices h : ∃ ret queue', processRequest J 4 this conn fd header body queue = (.ok ret, queue') ∧
      Meets J this conn fd (xheadAt header).logId root errs queue ret queue' by
    obtain ⟨ret, queue', hres, hmeets⟩ := h
    refine ⟨ret, queue', hres, fun root' errs' hp' => ?_⟩
    rw [hp] at hp'
    cases hp'
    exact hmeets
  simp only [processRequest, hp]
  by_cases he : errs ≠ ""
  · rw [if_pos he]
    exact ⟨-1, queue, rfl, by simp [Meets, he]⟩
  · rw [if_neg he]
    cases hc : cmdnoOf J root with
    | error e => exact ⟨-1, queue, rfl, by simp [Meets, he, hc]⟩
    | ok p =>
      obtain ⟨cmdno, root₁⟩ := p
      by_cases hcmd : cmdno = cmdnoPush
      · simp only [hcmd, if_true, processPush]
        cases hf : pushFieldsOf J root₁ with
        | error e => exact ⟨-1, queue, rfl, by simp [Meets, hc, hf, hcmd]⟩
        | ok f =>
          refine ⟨notify 4, _, rfl, fun h => absurd h he, fun _ => ⟨by simp [hc], ?_⟩⟩
          intro cmdno' root' h
          rw [hc] at h
          cases h
          refine ⟨fun h => absurd hcmd h, fun _ => ⟨by simp [hf], fun f' h => ?_⟩⟩
          rw [hf] at h
          cases h
          rfl
      · simp only [if_neg hcmd]
        refine ⟨0, queue, rfl, fun h => absurd h he, fun _ => ⟨by simp [hc], ?_⟩⟩
        intro cmdno' root' h
        rw [hc] at h
        cases h
        exact ⟨fun _ => rfl, fun h => absurd h hcmd⟩

/-- **When a request body is handled**: for every body, worker, connection and header, and every jsoncpp that keeps to
its documentation, the request is handled exactly when the body's nesting does not exceed the reader's `stackLimit`. -/
theorem request_handled_iff (J : Jsoncpp) (this : W) (conn : Addr) (fd : Int) (header body : List UInt8) :
    Handled J this conn fd header body ↔ J.depth body ≤ J.stackLimit := by
  constructor
  · intro h
    by_contra hdeep
    obtain ⟨e, he⟩ := (J.throws_iff body).2 (Nat.lt_of_not_le hdeep)
    obtain ⟨ret, queue', hres, -⟩ := h []
    simp only [processRequest, he] at hres
    cases hres
  · intro hshallow
    cases hp : J.parse body with
    | returned root errs => exact handled_of_returned hp
    | threw e => exact absurd hshallow (Nat.not_le.2 ((J.throws_iff body).1 ⟨e, hp⟩))

/-- The number of opening brackets a document starts with. -/
def openBrackets : List UInt8 → Nat
  | [] => 0
  | b :: bs => if b = 91 then openBrackets bs + 1 else 0

/-- jsoncpp's reader on documents of opening brackets: each bracket is one more `readValue()`, the one behind the last
of them included, and a document that ends there is a syntax error.  The default `stackLimit` is 1000. -/
def bracketReader : Jsoncpp where
  Value := Unit
  Exception := String
  parse doc :=
    if 1000 < openBrackets doc + 1 then .threw "Exceeded stackLimit in readValue()."
    else .returned () "Syntax error: value, object or array expected."
  index _ _ := .error "requires objectValue"
  constIndex _ _ := .error "requires objectValue"
  asInt _ := .error "Value is not convertible to Int."
  asUInt64 _ := .error "Value is not convertible to UInt64."
  asString _ := .error "Type is not convertible to string"
  depth doc := openBrackets doc + 1
  stackLimit := 1000
  throws_iff doc := by
    by_cases h : 1000 < openBrackets doc + 1
    · exact ⟨fun _ => h, fun _ => ⟨_, if_pos h⟩⟩
    · refine ⟨fun ⟨e, he⟩ => ?_, fun h' => absurd h' h⟩
      rw [if_neg h] at he
      cases he

theorem openBrackets_replicate : ∀ n, openBrackets (List.replicate n 91) = n
  | 0 => rfl
  | n + 1 => by rw [List.replicate_succ, openBrackets, if_pos rfl, openBrackets_replicate n]

theorem bracketReader_throws {doc : List UInt8} (h : 1000 < openBrackets doc + 1) :
    bracketReader.parse doc = .threw "Exceeded stackLimit in readValue()." := if_pos h

def deepBody : List UInt8 := List.replicate 1100 91

/-- **A body of 1100 opening brackets takes the worker down**: the exception of `parse` leaves `process_request_`. -/
theorem nested_body_escapes :
    processRequest bracketReader 4 () 3 5 [] deepBody [] = (.error "Exceeded stackLimit in readValue().", []) ∧
      ¬ Handled bracketReader () 3 5 [] deepBody := by
  have hdeep : 1000 < openBrackets deepBody + 1 := by
    unfold deepBody
    rw [openBrackets_replicate]
    decide
  have hres : processRequest bracketReader 4 () 3 5 [] deepBody [] =
      (.error "Exceeded stackLimit in readValue().", []) := by
    simp only [processRequest, bracketReader_throws hdeep]
  refine ⟨hres, fun h => ?_⟩
  obtain ⟨ret, queue', hok, -⟩ := h []
  rw [hres] at hok
  cases hok

end Request
end Xrtc
