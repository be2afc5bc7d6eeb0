import Xrtc.GoText
/-!
# PushAction — the HTTP push action of the signaling server

`pushAction.Execute` of `action/push.go` with `writeJsonErrorResponse` of `action/base.go`.  `framework.Call` is an
argument: it fails, or it fills the response.  The result collects what leaves the function: the calls made, the JSON
objects written, and whether it panicked.  Notices and log lines are left out.
-/
namespace Xrtc
namespace PushAction

/-- The values of one form key: `ParseForm` never makes an entry without one. -/
structure Values where
  first : GoString
  more : List GoString
  deriving DecidableEq

abbrev Form := GoString → Option Values

/-- `uid`, `streamName`, `audio` and `video`. -/
def uidKey : GoString := [117, 105, 100]

def streamNameKey : GoString := [115, 116, 114, 101, 97, 109, 78, 97, 109, 101]

def audioKey : GoString := [97, 117, 100, 105, 111]

def videoKey : GoString := [118, 105, 100, 101, 111]

/-- `if values, ok := r.Form[key]; ok { s = values[0] }` on an empty `s`. -/
def Form.value (form : Form) (key : GoString) : GoString :=
  match form key with
  | some values => values.first
  | none => []

/-- `CMDNO_PUSH`, and the error numbers of `comerrors`. -/
def cmdnoPush : Int := 1

def paramErr : Int := 1

def networkErr : Int := 2

structure XrtcPushReq where
  cmdno : Int
  uid : UInt64
  streamName : GoString
  audio : Int
  video : Int
  deriving DecidableEq

structure XrtcPushResp where
  errno : Int
  errMsg : GoString
  offer : GoString
  deriving DecidableEq

structure PushData where
  type : String
  sdp : GoString
  deriving DecidableEq

/-- `type comHttpResp struct`; `data` is null in an error response. -/
structure ComHttpResp where
  errorNo : Int
  errorMsg : String
  data : Option PushData
  deriving DecidableEq

inductive ErrMsg where
  | parseUid (e : GoText.NumError)
  | streamNameEmpty
  | callFailed (text : String)
  | backend (errno : Int)
  deriving DecidableEq

structure ComError where
  errNum : Int
  errMsg : ErrMsg
  deriving DecidableEq

/-- What `Execute` has done when it is over. -/
structure Executed where
  panicked : Bool
  calls : List XrtcPushReq
  writes : List ComHttpResp
  deriving DecidableEq

/-- `framework.Call("xrtc", req, &resp, logId)`: its error, or the response it filled in. -/
abbrev Call := XrtcPushReq → UInt32 → Except String XrtcPushResp

def writeJsonErrorResponse (cerr : ComError) (calls : List XrtcPushReq) : Executed :=
  ⟨false, calls, [⟨cerr.errNum, "process error", none⟩]⟩

/-- The value and the error of `strconv.ParseUint(strUid, 10, 64)`. -/
def parseUid (strUid : GoString) : Nat × Option GoText.NumError :=
  match GoText.parseUint strUid with
  | .ok uid => (uid, none)
  | .error .rangeError => (2 ^ 64 - 1, some .rangeError)
  | .error .syntaxError => (0, some .syntaxError)

/-- `audio` and `video`. -/
def flagOf (value : GoString) : Int := if value = [] ∨ value = [48] then 0 else 1

def execute (call : Call) (logId : UInt32) (form : Form) : Executed :=
  let (uid, err) := parseUid (form.value uidKey)
  if err ≠ none ∨ uid ≤ 0 then
    match err with
    | none => ⟨true, [], []⟩ -- `err.Error()` on a nil error
    | some e => writeJsonErrorResponse ⟨paramErr, .parseUid e⟩ []
  else
    let streamName := form.value streamNameKey
    if streamName = [] then writeJsonErrorResponse ⟨paramErr, .streamNameEmpty⟩ []
    else
      let req : XrtcPushReq :=
        ⟨cmdnoPush, UInt64.ofNat uid, streamName, flagOf (form.value audioKey), flagOf (form.value videoKey)⟩
      match call req logId with
      | .error text => writeJsonErrorResponse ⟨networkErr, .callFailed text⟩ [req]
      | .ok resp =>
        if resp.errno ≠ 0 then writeJsonErrorResponse ⟨networkErr, .backend resp.errno⟩ [req]
        else ⟨false, [req], [⟨0, "success", some ⟨"offer", resp.offer⟩⟩]⟩

/-! ## What the action must do -/

/-- The parameters are valid: `uid` is a decimal integer in `1 .. 2 ^ 64 - 1` and `streamName` is not empty. -/
def Valid (form : Form) : Prop :=
  GoText.DecimalIn 1 (2 ^ 64 - 1) (form.value uidKey) ∧ form.value streamNameKey ≠ []

structure Carries (form : Form) (req : XrtcPushReq) : Prop where
  cmdno : req.cmdno = cmdnoPush
  uid : req.uid.toNat = GoText.decimal (form.value uidKey)
  streamName : req.streamName = form.value streamNameKey
  audio : req.audio = if form.value audioKey = [] ∨ form.value audioKey = [48] then 0 else 1
  video : req.video = if form.value videoKey = [] ∨ form.value videoKey = [48] then 0 else 1

def CallFails (call : Call) (logId : UInt32) (req : XrtcPushReq) : Prop :=
  ∀ resp, call req logId = .ok resp → resp.errno ≠ 0

/-- **One answer**: no panic, one JSON object, with the error number, calls and data its case asks for. -/
structure AnswersOnce (call : Call) (logId : UInt32) (form : Form) (r : Executed) : Prop where
  returns : r.panicked = false
  once : ∃ resp, r.writes = [resp] ∧
    (resp.errorNo = paramErr ↔ ¬Valid form) ∧
    (¬Valid form → r.calls = []) ∧
    (Valid form → ∃ req, r.calls = [req] ∧ Carries form req ∧
      (resp.errorNo = networkErr ↔ CallFails call logId req) ∧
      ∀ back, call req logId = .ok back → back.errno = 0 →
        resp = ⟨0, "success", some ⟨"offer", back.offer⟩⟩) ∧
    (resp.errorNo = networkErr → Valid form)

/-- `uid` is a nonempty string of zeros. -/
def ZeroUid (form : Form) : Prop := form.value uidKey ≠ [] ∧ ∀ c ∈ form.value uidKey, c = 48

instance (form : Form) : Decidable (ZeroUid form) :=
  inferInstanceAs (Decidable (form.value uidKey ≠ [] ∧ ∀ c ∈ form.value uidKey, c = 48))

theorem parseUint_zero_iff (s : GoString) : GoText.parseUint s = .ok 0 ↔ s ≠ [] ∧ ∀ c ∈ s, c = 48 := by
  rw [GoText.parseUint_ok_iff]
  constructor
  · rintro ⟨⟨hne, hall, -, -⟩, hzero⟩
    exact ⟨hne, ((GoText.digitsFrom_eq_zero s 0 hall).1 hzero).2⟩
  · rintro ⟨hne, hzeros⟩
    have hall : ∀ c ∈ s, GoText.isDigit c = true := by
      intro c hc
      rw [hzeros c hc]
      decide
    have hzero : GoText.decimal s = 0 := (GoText.digitsFrom_eq_zero s 0 hall).2 ⟨rfl, hzeros⟩
    exact ⟨⟨hne, hall, by omega, by omega⟩, hzero⟩

theorem not_valid_of_error {form : Form} {e : GoText.NumError} (h : GoText.parseUint (form.value uidKey) = .error e) :
    ¬Valid form := by
  rintro ⟨⟨hne, hall, -, hhi⟩, -⟩
  have hok := (GoText.parseUint_ok_iff (form.value uidKey) _).2 ⟨⟨hne, hall, Nat.zero_le _, hhi⟩, rfl⟩
  rw [h] at hok
  cases hok

theorem answers_of_not_valid {call : Call} {logId : UInt32} {form : Form} (msg : ErrMsg) (h : ¬Valid form) :
    AnswersOnce call logId form (writeJsonErrorResponse ⟨paramErr, msg⟩ []) := by
  refine ⟨rfl, _, rfl, ?_, fun _ => rfl, fun hv => absurd hv h, ?_⟩
  · simp [h]
  · intro hnet
    cases hnet

theorem answers_of_callFails {call : Call} {logId : UInt32} {form : Form} {req : XrtcPushReq} (msg : ErrMsg)
    (hv : Valid form) (hreq : Carries form req) (h : CallFails call logId req) :
    AnswersOnce call logId form (writeJsonErrorResponse ⟨networkErr, msg⟩ [req]) := by
  have hne : ¬networkErr = paramErr := by decide
  refine ⟨rfl, _, rfl, ?_, fun hn => absurd hv hn, fun _ => ⟨req, rfl, hreq, ?_, ?_⟩, fun _ => hv⟩
  · simp [hne, hv]
  · simp [h]
  · intro back hback hzero
    exact absurd hzero (h back hback)

theorem answers_of_offer {call : Call} {logId : UInt32} {form : Form} {req : XrtcPushReq} {back : XrtcPushResp}
    (hv : Valid form) (hreq : Carries form req) (hback : call req logId = .ok back) (hzero : back.errno = 0) :
    AnswersOnce call logId form ⟨false, [req], [⟨0, "success", some ⟨"offer", back.offer⟩⟩]⟩ := by
  have hparam : ¬(0 : Int) = paramErr := by decide
  have hnetwork : ¬(0 : Int) = networkErr := by decide
  refine ⟨rfl, _, rfl, ?_, fun hn => absurd hv hn, fun _ => ⟨req, rfl, hreq, ?_, ?_⟩, fun h => absurd h hnetwork⟩
  · simp [hparam, hv]
  · constructor
    · exact fun h => absurd h hnetwork
    · exact fun h => absurd hzero (h back hback)
  · intro back' hback' _
    rw [hback] at hback'
    cases hback'
    rfl

/-- **The push action answers once exactly when `uid` is not a string of zeros.** -/
theorem push_answers_once_iff (call : Call) (logId : UInt32) (form : Form) :
    AnswersOnce call logId form (execute call logId form) ↔ ¬ZeroUid form := by
  have hzero : ZeroUid form ↔ GoText.parseUint (form.value uidKey) = .ok 0 :=
    (parseUint_zero_iff (form.value uidKey)).symm
  rw [hzero]
  unfold execute parseUid
  cases hp : GoText.parseUint (form.value uidKey) with
  | error e =>
    have hno : ¬Except.error e = (Except.ok 0 : Except GoText.NumError Nat) := by simp
    refine iff_of_true ?_ hno
    cases e with
    | syntaxError => exact answers_of_not_valid _ (not_valid_of_error hp)
    | rangeError => exact answers_of_not_valid _ (not_valid_of_error hp)
  | ok uid =>
    obtain ⟨⟨hne, hall, -, hhi⟩, hval⟩ := (GoText.parseUint_ok_iff _ _).1 hp
    by_cases huid : uid = 0
    · -- the error message is taken from a nil error
      subst huid
      refine iff_of_false (fun h => ?_) (not_not_intro rfl)
      cases h.returns
    · refine iff_of_true ?_ (by simpa using huid)
      have hcond : ¬((none : Option GoText.NumError) ≠ none ∨ uid ≤ 0) := by
        simp only [ne_eq, not_true_eq_false, false_or]
        omega
      simp only [if_neg hcond]
      by_cases hname : form.value streamNameKey = []
      · rw [if_pos hname]
        exact answers_of_not_valid _ (fun hv => hv.2 hname)
      · rw [if_neg hname]
        have hv : Valid form := ⟨⟨hne, hall, by omega, hhi⟩, hname⟩
        have hreq : Carries form ⟨cmdnoPush, UInt64.ofNat uid, form.value streamNameKey,
            flagOf (form.value audioKey), flagOf (form.value videoKey)⟩ := by
          refine ⟨rfl, ?_, rfl, rfl, rfl⟩
          rw [hval, UInt64.toNat_ofNat']
          exact Nat.mod_eq_of_lt (by omega)
        generalize (⟨cmdnoPush, UInt64.ofNat uid, form.value streamNameKey, flagOf (form.value audioKey),
          flagOf (form.value videoKey)⟩ : XrtcPushReq) = req at hreq ⊢
        cases hc : call req logId with
        | error text =>
          refine answers_of_callFails _ hv hreq (fun back hback => ?_)
          rw [hc] at hback
          cases hback
        | ok back =>
          simp only
          by_cases herr : back.errno ≠ 0
          · rw [if_pos herr]
            refine answers_of_callFails _ hv hreq (fun back' hback => ?_)
            rw [hc] at hback
            cases hback
            exact herr
          · rw [if_neg herr]
            exact answers_of_offer hv hreq hc (not_not.1 herr)

/-- `uid=0&streamName=a`. -/
def uidZero : Form := fun key =>
  if key = uidKey then some ⟨[48], []⟩ else if key = streamNameKey then some ⟨[97], []⟩ else none

theorem push_panics_on_uid_zero :
    ¬ ∀ (call : Call) (logId : UInt32) (form : Form), AnswersOnce call logId form (execute call logId form) := by
  intro hall
  have hpanics : (execute (fun _ _ => .error "") 0 uidZero).panicked = true := by decide
  rw [(hall (fun _ _ => .error "") 0 uidZero).returns] at hpanics
  cases hpanics

end PushAction
end Xrtc
