import Xrtc.GoFmt
/-!
# ComLog — the request log of the signaling server

`ComLog` of `framework/log.go`: notices and timers collected over a request, then printed in front of the text of every
log call.  `Debugf`, `Infof` and `Warningf` put them in front of the format, and `glog` formats the two together with
`fmt.Fprintf`; its header line and final newline are left out.
-/
namespace Xrtc

open GoFmt (Printer ascii sprintf)

@[ext] structure LogItem where
  field : GoString
  value : GoString
  deriving DecidableEq

/-- `type timeItem struct`, in microseconds. -/
structure TimeItem where
  field : GoString
  beginTime : Int64
  endTime : Int64 := 0
  deriving DecidableEq

structure ComLog where
  mainLog : List LogItem := []
  timeLog : List TimeItem := []
  deriving DecidableEq

namespace ComLog

def addNotice (l : ComLog) (field value : GoString) : ComLog :=
  { l with mainLog := l.mainLog ++ [⟨field, value⟩] }

/-- `now` is `time.Now().UnixNano()`. -/
def timeBegin (l : ComLog) (field : GoString) (now : Int64) : ComLog :=
  { l with timeLog := l.timeLog ++ [{ field := field, beginTime := now / 1000 }] }

/-- The loop of `TimeEnd` stops at the first timer of the name. -/
def endFirst (field : GoString) (now : Int64) : List TimeItem → List TimeItem
  | [] => []
  | t :: ts => if t.field = field then { t with endTime := now / 1000 } :: ts else t :: endFirst field now ts

def timeEnd (l : ComLog) (field : GoString) (now : Int64) : ComLog :=
  { l with timeLog := endFirst field now l.timeLog }

/-! ## The prefix -/

/-- The nearest integer to `num / den`, the even one of two. -/
def roundDiv (num den : Nat) : Nat :=
  let q := num / den
  let r := num % den
  if 2 * r < den ∨ 2 * r = den ∧ q % 2 = 0 then q else q + 1

/-- The numerator over `2 ^ 64` of the `float64` nearest to `num / den`: 53 significant bits, for values from `2 ^ -12`
on. -/
def float64 (num den : Nat) : Nat :=
  let drop := (num * 2 ^ 64 / den).log2 - 52
  roundDiv (num * 2 ^ 64) (den * 2 ^ drop) * 2 ^ drop

def digits (n : Nat) : GoString := (Nat.toDigits 10 n).map (fun c => UInt8.ofNat c.toNat)

def digit (n : Nat) : UInt8 := UInt8.ofNat (48 + n % 10)

/-- `%.3f` of `float64(diffTime) / 1000.0`, for a difference that is not negative. -/
def millis (diffTime : Nat) : GoString :=
  let k := roundDiv (float64 (float64 diffTime 1) (2 ^ 64 * 1000) * 1000) (2 ^ 64)
  digits (k / 1000) ++ ascii "." ++ [digit (k / 100), digit (k / 10), digit k]

/-- `fmt.Sprintf("%s[%s]", item.field, item.value)`. -/
def noticeText (item : LogItem) : GoString := item.field ++ ascii "[" ++ item.value ++ ascii "]"

/-- `GetPrefixLog` skips a timer that ended before it began, and so one that has not ended. -/
def timeText (t : TimeItem) : GoString :=
  let diffTime := t.endTime - t.beginTime
  if diffTime < 0 then []
  else t.field ++ ascii "[" ++ millis diffTime.toNatClampNeg ++ ascii "ms] "

def getPrefixLog (l : ComLog) : GoString := l.mainLog.flatMap noticeText ++ l.timeLog.flatMap timeText

/-! ## The log calls -/

inductive Severity where
  | debug
  | info
  | warning
  deriving DecidableEq

variable {V : Type}

/-- `logging.printf`: the text it formats. -/
def printf (P : Printer V) (s : Severity) (format : GoString) (args : List V) : Severity × GoString :=
  (s, sprintf P format args)

/-- `totalLog := c.GetPrefixLog() + format`. -/
def logf (s : Severity) (P : Printer V) (l : ComLog) (format : GoString) (args : List V) : Severity × GoString :=
  printf P s (l.getPrefixLog ++ format) args

def debugf : Printer V → ComLog → GoString → List V → Severity × GoString := logf .debug

def infof : Printer V → ComLog → GoString → List V → Severity × GoString := logf .info

def warningf : Printer V → ComLog → GoString → List V → Severity × GoString := logf .warning

inductive Call where
  | addNotice (field value : GoString)
  | timeBegin (field : GoString) (now : Int64)
  | timeEnd (field : GoString) (now : Int64)
  deriving DecidableEq

def apply (l : ComLog) : Call → ComLog
  | .addNotice field value => l.addNotice field value
  | .timeBegin field now => l.timeBegin field now
  | .timeEnd field now => l.timeEnd field now

def ofCalls (calls : List Call) : ComLog := calls.foldl apply {}

/-- No notice has a `%`, and no timer that is printed has one in its name. -/
def Plain (calls : List Call) : Prop :=
  (∀ field value, .addNotice field value ∈ calls → 37 ∉ field ∧ 37 ∉ value) ∧
  ∀ t ∈ (ofCalls calls).timeLog, ¬t.endTime - t.beginTime < 0 → 37 ∉ t.field

/-! ## Where the prefix has its `%` -/

theorem percent_not_mem_digits (n : Nat) : 37 ∉ digits n := by
  intro h
  obtain ⟨c, hc, hbyte⟩ := List.mem_map.1 h
  have hdigit := Nat.isDigit_of_mem_toDigits (by decide) (by decide) hc
  have hrange : 48 ≤ c.toNat ∧ c.toNat ≤ 57 := by
    simpa [Char.isDigit, UInt32.le_iff_toNat_le] using hdigit
  have hval : c.toNat % 256 = 37 := congrArg UInt8.toNat hbyte
  omega

theorem digit_ne_percent (n : Nat) : 37 ≠ digit n := by
  intro h
  have hval : 37 = (48 + n % 10) % 256 := congrArg UInt8.toNat h
  omega

theorem percent_not_mem_millis (diffTime : Nat) : 37 ∉ millis diffTime := by
  have hpoint : 37 ∉ ascii "." := by decide
  simp [millis, percent_not_mem_digits, digit_ne_percent, hpoint]

theorem percent_mem_noticeText (item : LogItem) : 37 ∈ noticeText item ↔ 37 ∈ item.field ∨ 37 ∈ item.value := by
  have hbrackets : 37 ∉ ascii "[" ∧ 37 ∉ ascii "]" := by decide
  simp [noticeText, hbrackets]

theorem percent_mem_timeText (t : TimeItem) :
    37 ∈ timeText t ↔ ¬t.endTime - t.beginTime < 0 ∧ 37 ∈ t.field := by
  have hbrackets : 37 ∉ ascii "[" ∧ 37 ∉ ascii "ms] " := by decide
  by_cases h : t.endTime - t.beginTime < 0
  · simp [timeText, h]
  · simp only [timeText, h, if_false, List.mem_append, hbrackets, percent_not_mem_millis, or_false, not_false_eq_true,
      true_and]

theorem mainLog_apply (l : ComLog) (item : LogItem) (c : Call) :
    item ∈ (apply l c).mainLog ↔ item ∈ l.mainLog ∨ c = .addNotice item.field item.value := by
  cases c with
  | addNotice field value => simp [apply, addNotice, LogItem.ext_iff, eq_comm]
  | timeBegin field now => simp [apply, timeBegin]
  | timeEnd field now => simp [apply, timeEnd]

/-- **The notices of a log are those added**, whatever the timers did. -/
theorem mem_mainLog (item : LogItem) : ∀ (calls : List Call) (l : ComLog),
    item ∈ (calls.foldl apply l).mainLog ↔ item ∈ l.mainLog ∨ .addNotice item.field item.value ∈ calls
  | [], l => by simp
  | c :: calls, l => by
    rw [List.foldl_cons, mem_mainLog item calls, mainLog_apply, List.mem_cons, or_assoc, eq_comm]

theorem prefix_plain_iff (calls : List Call) : 37 ∉ (ofCalls calls).getPrefixLog ↔ Plain calls := by
  have hnotices : (∀ item ∈ (ofCalls calls).mainLog, 37 ∉ noticeText item) ↔
      ∀ field value, .addNotice field value ∈ calls → 37 ∉ field ∧ 37 ∉ value := by
    simp only [ofCalls, mem_mainLog, List.not_mem_nil, false_or, percent_mem_noticeText, not_or]
    exact ⟨fun h field value hmem => h ⟨field, value⟩ hmem, fun h item hmem => h item.field item.value hmem⟩
  have htimes : (∀ t ∈ (ofCalls calls).timeLog, 37 ∉ timeText t) ↔
      ∀ t ∈ (ofCalls calls).timeLog, ¬t.endTime - t.beginTime < 0 → 37 ∉ t.field := by
    simp only [percent_mem_timeText, not_and]
  rw [Plain, ← hnotices, ← htimes, getPrefixLog, List.mem_append, not_or, List.mem_flatMap, List.mem_flatMap]
  simp only [not_exists, not_and]

/-- **Notices are printed verbatim exactly when they have no `%`.**  For every sequence of calls, every log call prints
the prefix and then its formatted text, for all formats and arguments, if and only if no notice and no printed timer has
a `%` in it. -/
theorem notices_verbatim_iff {P : Printer V} {z : V} (hz : GoFmt.IsZero P z) (calls : List Call) :
    (∀ format args, let l := ofCalls calls
      debugf P l format args = (.debug, l.getPrefixLog ++ sprintf P format args) ∧
      infof P l format args = (.info, l.getPrefixLog ++ sprintf P format args) ∧
      warningf P l format args = (.warning, l.getPrefixLog ++ sprintf P format args)) ↔ Plain calls := by
  rw [← prefix_plain_iff, ← GoFmt.sprintf_verbatim_iff hz]
  simp [debugf, infof, warningf, logf, printf]

/-- Integers with the verbs `d` and `v` without flags; other verbs are errors. -/
def intPrinter : Printer Int where
  printArg _ verb n :=
    if verb = ascii "d" ∨ verb = ascii "v" then ascii (toString n)
    else ascii "%!" ++ verb ++ ascii "(int=" ++ ascii (toString n) ++ ascii ")"
  toInt n := some n
  typeOf _ := some (ascii "int")

theorem intPrinter_isZero : GoFmt.IsZero intPrinter 0 := by
  refine ⟨rfl, ?_⟩
  intro flags verb hverb
  simp only [intPrinter]
  split
  · decide
  · have hzero : verb.count 37 = 0 := List.count_eq_zero.2 hverb
    simp only [List.count_append, hzero]
    decide

/-- What `entry` does for a request: a header, then the timer. -/
def request (userAgent : String) : List Call :=
  [.addNotice (ascii "user-agent") (ascii userAgent), .timeBegin (ascii "totalCost") 1700000000000000000,
    .timeEnd (ascii "totalCost") 1700000000001500000]

theorem notices_verbatim_iff_curl : Plain (request "curl") ∧
    infof intPrinter (ofCalls (request "curl")) (ascii "uid %d") [7] =
      (.info, ascii "user-agent[curl]totalCost[1.500ms] uid 7") := by
  have hplain : Plain (request "curl") := (prefix_plain_iff (request "curl")).1 (by decide +kernel)
  have htext := ((notices_verbatim_iff intPrinter_isZero (request "curl")).2 hplain (ascii "uid %d") [7]).2.1
  refine ⟨hplain, htext.trans ?_⟩
  decide +kernel

theorem percent_notice_garbled : ¬ ∀ (calls : List Call) (format : GoString) (args : List Int),
    infof intPrinter (ofCalls calls) format args =
      (.info, (ofCalls calls).getPrefixLog ++ sprintf intPrinter format args) := by
  intro h
  have htext := h (request "%d") [] []
  revert htext
  decide +kernel

end ComLog
end Xrtc
