import Mathlib.Logic.Function.Basic
import Xrtc.GoText
import Xrtc.Lts
/-!
# Glog — the signaling server's logger

`glog/glog.go` and `glog_file.go`: any number of goroutines log at once.  A call takes a byte buffer from the free list
(under `freeListMu`) or makes one, writes header and message into it without a lock, and hands it to `output`, which
under `l.mu` writes it to the log files and puts the buffer back.  Locked regions are single steps, everything between
them is a step of its own.

A file of a severity is a `syncBuffer`: what is on disk, what its `bufio.Writer` still holds, the files it has closed by
rotation.  Creating a file may fail, writing to one does not.  A panic in `output` leaves `l.mu` locked.
-/
namespace Xrtc
namespace Glog

inductive Severity where
  | debugLog
  | infoLog
  | warningLog
  | errorLog
  | fatalLog
  deriving DecidableEq

def Severity.toInt : Severity → Int
  | .debugLog => 0
  | .infoLog => 1
  | .warningLog => 2
  | .errorLog => 3
  | .fatalLog => 4

/-- `severityChar`, `"DIWEF"`. -/
def Severity.char : Severity → UInt8
  | .debugLog => 68
  | .infoLog => 73
  | .warningLog => 87
  | .errorLog => 69
  | .fatalLog => 70

/-! ## The header of a line -/

/-- What `formatHeader` reads of the clock. -/
structure Clock where
  month : Nat
  day : Nat
  hour : Nat
  minute : Nat
  second : Nat
  nanosecond : Nat
  deriving DecidableEq

def digit (d : Nat) : UInt8 := UInt8.ofNat (48 + d % 10)

def twoDigits (i d : Nat) (tmp : List UInt8) : List UInt8 := (tmp.set (i + 1) (digit d)).set i (digit (d / 10))

/-- `nDigits`: the loop over the digits of `d`, then the loop that pads. -/
def nDigits : (n i d : Nat) → (pad : UInt8) → List UInt8 → List UInt8
  | 0, _, _, _, tmp => tmp
  | j + 1, i, d, pad, tmp =>
    if 0 < d then nDigits j i (d / 10) pad (tmp.set (i + j) (digit d)) else nDigits j i 0 pad (tmp.set (i + j) pad)

/-- The loop of `someDigits`: the digits of `d` in front of position `j`. -/
def topDigits : (j d : Nat) → List UInt8 → Nat × List UInt8
  | 0, _, tmp => (0, tmp)
  | j + 1, d, tmp =>
    if d / 10 = 0 then (j, tmp.set j (digit d)) else topDigits j (d / 10) (tmp.set j (digit d))

/-- `someDigits`: the digits are made at the end of `tmp` and copied down. -/
def someDigits (i d : Nat) (tmp : List UInt8) : Nat × List UInt8 :=
  let (j, tmp) := topDigits tmp.length d tmp
  let n := min (tmp.length - i) (tmp.length - j)
  (n, tmp.take i ++ (tmp.drop j).take n ++ tmp.drop (i + n))

/-- `formatHeader`, with what the buffer's scratch space `tmp` holds from its last use. -/
def formatHeader (s : Severity) (now : Clock) (pid : Nat) (file : GoString) (line : Int) (tmp : List UInt8) :
    GoString × List UInt8 :=
  let tmp := tmp.set 0 s.char
  let tmp := twoDigits 3 now.day (twoDigits 1 now.month tmp)
  let tmp := twoDigits 6 now.hour (tmp.set 5 32)
  let tmp := twoDigits 9 now.minute (tmp.set 8 58)
  let tmp := twoDigits 12 now.second (tmp.set 11 58)
  let tmp := nDigits 6 15 (now.nanosecond / 1000) 48 (tmp.set 14 46)
  let tmp := nDigits 7 22 pid 32 (tmp.set 21 32)
  let tmp := tmp.set 29 32
  let front := tmp.take 30
  let (n, tmp) := someDigits 1 line.toNat (tmp.set 0 58)
  let tmp := (tmp.set (n + 1) 93).set (n + 2) 32
  (front ++ file ++ tmp.take (n + 3), tmp)

/-! ## The files -/

def bufferSize : Nat := 256 * 1024

/-- `type syncBuffer struct`, its file and its `bufio.Writer`; `closed` are the files it had before. -/
structure SyncBuffer where
  closed : List GoString
  file : GoString
  buf : GoString
  nbytes : Nat
  deriving DecidableEq

namespace SyncBuffer

/-- `rotateFile` of a `syncBuffer` without a file. -/
def create (header : GoString) : SyncBuffer := ⟨[], header, [], header.length⟩

def flush (sb : SyncBuffer) : SyncBuffer := { sb with file := sb.file ++ sb.buf, buf := [] }

def rotateFile (sb : SyncBuffer) (header : GoString) : SyncBuffer :=
  ⟨sb.closed ++ [sb.flush.file], header, [], header.length⟩

/-- `bufio.Writer.Write` on a file that takes everything. -/
def bufWrite (sb : SyncBuffer) (p : GoString) : SyncBuffer :=
  if p.length ≤ bufferSize - sb.buf.length then { sb with buf := sb.buf ++ p }
  else if sb.buf = [] then { sb with file := sb.file ++ p }
  else
    let n := bufferSize - sb.buf.length
    let file := sb.file ++ sb.buf ++ p.take n
    let p := p.drop n
    if p.length ≤ bufferSize then { sb with file := file, buf := p } else { sb with file := file ++ p, buf := [] }

def append (sb : SyncBuffer) (p : GoString) : SyncBuffer := { sb.bufWrite p with nbytes := sb.nbytes + p.length }

/-- `syncBuffer.Write`; `rotated` is the header of the file that rotation makes, `none` when that fails. -/
def write (maxSize : Nat) (rotated : Option GoString) (sb : SyncBuffer) (p : GoString) : Option SyncBuffer :=
  if maxSize ≤ sb.nbytes + p.length then rotated.map (fun header => (sb.rotateFile header).append p)
  else some (sb.append p)

end SyncBuffer

abbrev Files := Severity → Option SyncBuffer

/-- What the clock, the file system and the runtime answer during one call of `output`: the headers of the files it
makes (`none` when that fails), whether `log_backtrace_at` names the place of the call, and the stacks. -/
structure Env where
  created : Severity → Option GoString
  rotated : Severity → Option GoString
  atLocation : Bool
  stack : GoString
  trace : GoString

/-- The severities from `s` down to `infoLog`. -/
def descending : Severity → List Severity
  | .debugLog => []
  | .infoLog => [.infoLog]
  | .warningLog => [.warningLog, .infoLog]
  | .errorLog => [.errorLog, .warningLog, .infoLog]
  | .fatalLog => [.fatalLog, .errorLog, .warningLog, .infoLog]

/-- The loop of `createFiles`, with the files made so far when it fails. -/
def createFiles (env : Env) : List Severity → Files → Bool × Files
  | [], fs => (true, fs)
  | s :: rest, fs =>
    if (fs s).isSome then (true, fs)
    else match env.created s with
      | none => (false, fs)
      | some header => createFiles env rest (Function.update fs s (some (.create header)))

/-- The files a line goes to, in the order of the `switch` with its `fallthrough`s. -/
def targets : Severity → List Severity
  | .debugLog => [.infoLog]
  | .infoLog => [.infoLog]
  | _ => [.warningLog, .infoLog]

inductive Wrote where
  | all (fs : Files)
  | panicked (fs : Files)
  | failed (fs : Files)

def writeFiles (maxSize : Nat) (env : Env) (data : GoString) : List Severity → Files → Wrote
  | [], fs => .all fs
  | s :: rest, fs => match fs s with
    | none => .panicked fs
    | some sb => match sb.write maxSize (env.rotated s) data with
      | none => .failed fs
      | some sb => writeFiles maxSize env data rest (Function.update fs s (some sb))

def flushAll (fs : Files) : Files := fun s => (fs s).map SyncBuffer.flush

/-- The stacks of all goroutines to every file there is; a failed rotation does not stop it. -/
def dump (maxSize : Nat) (env : Env) : List Severity → Files → Files
  | [], fs => fs
  | s :: rest, fs => match fs s with
    | none => dump maxSize env rest fs
    | some sb => dump maxSize env rest (Function.update fs s (some ((sb.write maxSize (env.rotated s) env.trace).getD sb)))

/-! ## The goroutines -/

structure Buffer where
  bytes : GoString
  tmp : List UInt8
  next : Option Nat
  deriving DecidableEq

/-- `new(buffer)`. -/
def Buffer.zero : Buffer := ⟨[], List.replicate 64 0, none⟩

/-- A goroutine inside a call: a buffer taken from the list and not yet reset, ready for its header, and with what the
call has written so far. -/
inductive Pc where
  | idle
  | taken (s : Severity) (b : Nat)
  | header (s : Severity) (b : Nat)
  | format (s : Severity) (b : Nat) (text : GoString)
  | dead
  deriving DecidableEq

structure Flags where
  parsed : Bool
  toStderr : Bool
  alsoToStderr : Bool
  stderrThreshold : Int
  fatalNoStacks : Bool
  deriving DecidableEq

/-- The logger and its goroutines; `lines` and `bytes` are the `Stats`.  The last field is history: the calls whose line
went to the files, in the order they held `l.mu`, with the text each had written. -/
structure St where
  flags : Flags
  buffers : Nat → Buffer
  made : Nat
  freeList : Option Nat
  files : Files
  stderr : List GoString
  lines : Severity → Nat
  bytes : Severity → Nat
  hung : Bool
  exited : Option Nat
  goroutines : Nat → Pc
  filed : List (Severity × GoString)

/-- The defaults of the flags: `stderrThreshold` is `errorLog`. -/
def init : St :=
  { flags := ⟨false, false, false, Severity.errorLog.toInt, false⟩, buffers := fun _ => .zero, made := 0, freeList := none
    files := fun _ => none, stderr := [], lines := fun _ => 0, bytes := fun _ => 0, hung := false, exited := none
    goroutines := fun _ => .idle, filed := [] }

inductive Label where
  | getBuffer (g : Nat) (s : Severity)
  | reset (g : Nat)
  | formatHeader (g : Nat) (now : Clock) (pid : Nat) (file : GoString) (line : Int)
  | print (g : Nat) (text : GoString)
  | output (g : Nat) (env : Env)
  | flush
  | setFlags (flags : Flags)

def setPc (st : St) (g : Nat) (pc : Pc) : St := { st with goroutines := Function.update st.goroutines g pc }

/-- `getBuffer`: the locked region takes the head of the free list. -/
def getBuffer (st : St) (g : Nat) (s : Severity) : St :=
  match st.freeList with
  | some b => setPc { st with freeList := (st.buffers b).next } g (.taken s b)
  | none => setPc { st with buffers := Function.update st.buffers st.made .zero, made := st.made + 1 } g
      (.header s st.made)

def putBuffer (st : St) (b : Nat) : St :=
  if 256 ≤ (st.buffers b).bytes.length then st
  else { st with
    buffers := Function.update st.buffers b { st.buffers b with next := st.freeList }
    freeList := some b }

/-- The newline of `printf`, `print` and `println`. -/
def endLine (text : GoString) : GoString := if text.getLast? = some 10 then text else text ++ [10]

def lineOf (env : Env) (text : GoString) : GoString := endLine text ++ if env.atLocation then env.stack else []

def loggingBeforeParse : GoString := "ERROR: logging before flag.Parse: ".toList.map (fun c => UInt8.ofNat c.toNat)

/-- The end of `output`: a fatal call ends the program, any other puts its buffer back and counts its line. -/
def finish (maxSize : Nat) (env : Env) (st : St) (g : Nat) (s : Severity) (b : Nat) (data : GoString) : St :=
  if s = .fatalLog then
    if st.flags.fatalNoStacks then { st with files := flushAll st.files, exited := some 1 }
    else { st with
      stderr := if st.flags.toStderr then st.stderr else st.stderr ++ [env.stack]
      files := flushAll (dump maxSize env (descending .fatalLog) st.files)
      exited := some 255 }
  else
    setPc { putBuffer st b with
      lines := Function.update st.lines s (st.lines s + 1)
      bytes := Function.update st.bytes s (st.bytes s + data.length) } g .idle

/-- `output`, `l.mu` being free. -/
def output (maxSize : Nat) (env : Env) (st : St) (g : Nat) (s : Severity) (b : Nat) (text : GoString) : St :=
  let data := lineOf env (st.buffers b).bytes
  let st := { st with buffers := Function.update st.buffers b { st.buffers b with bytes := data } }
  if ¬st.flags.parsed then
    finish maxSize env { st with stderr := st.stderr ++ [loggingBeforeParse, data] } g s b data
  else if st.flags.toStderr then finish maxSize env { st with stderr := st.stderr ++ [data] } g s b data
  else
    let st := { st with
      stderr := if st.flags.alsoToStderr ∨ st.flags.stderrThreshold ≤ s.toInt then st.stderr ++ [data] else st.stderr }
    let (ok, files) := if (st.files s).isSome then (true, st.files) else createFiles env (descending s) st.files
    if ¬ok then { st with stderr := st.stderr ++ [data], files := flushAll files, exited := some 2 }
    else match writeFiles maxSize env data (targets s) files with
      | .panicked files => setPc { st with files := files, hung := true } g .dead
      | .failed files => { st with files := flushAll files, exited := some 2 }
      | .all files =>
        finish maxSize env { st with files := files, filed := st.filed ++ [(s, lineOf env text)] } g s b data

def step (maxSize : Nat) (st : St) (l : Label) : Option St :=
  if st.exited ≠ none then none
  else match l with
    | .getBuffer g s => if st.goroutines g = .idle then some (getBuffer st g s) else none
    | .reset g => match st.goroutines g with
      | .taken s b => some (setPc { st with
          buffers := Function.update st.buffers b { st.buffers b with bytes := [], next := none } } g (.header s b))
      | _ => none
    | .formatHeader g now pid file line => match st.goroutines g with
      | .header s b =>
        let (text, tmp) := formatHeader s now pid file line (st.buffers b).tmp
        some (setPc { st with
          buffers := Function.update st.buffers b { st.buffers b with bytes := (st.buffers b).bytes ++ text, tmp := tmp } }
          g (.format s b text))
      | _ => none
    | .print g more => match st.goroutines g with
      | .format s b text => some (setPc { st with
          buffers := Function.update st.buffers b { st.buffers b with bytes := (st.buffers b).bytes ++ more } }
          g (.format s b (text ++ more)))
      | _ => none
    | .output g env => match st.goroutines g with
      | .format s b text => if st.hung then none else some (output maxSize env st g s b text)
      | _ => none
    | .flush => if st.hung then none else some { st with files := flushAll st.files }
    | .setFlags flags => some { st with flags := flags }

end Glog
end Xrtc
