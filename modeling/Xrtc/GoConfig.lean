import Mathlib.Logic.Function.Basic
import Xrtc.GoStrings
/-!
# GoConfig — the configuration file package

`goconfig/conf.go`, `read.go` and `write.go`: a `ConfigFile` with its maps and its lists, the calls that change it, the
reader of the file format (`read`) and its writer (`saveConfigData`).  A slice expression out of range is a panic,
`none` here.  A reader delivers its bytes and then `io.EOF`; `LineBreak` is a newline.
-/
namespace Xrtc
namespace GoConfig

open GoText (trimSpace index lastIndex indexAny)

/-- `type ConfigFile struct` without its lock, its `BlockMode` and its file names. -/
structure ConfigFile where
  data : GoString → Option (GoString → Option GoString)
  sectionList : List GoString
  keyList : GoString → List GoString
  sectionComments : GoString → Option GoString
  keyComments : GoString → Option (GoString → Option GoString)
  prettyFormat : Bool

/-- `DEFAULT_SECTION`, `"DEFAULT"`. -/
def defaultSection : GoString := [68, 69, 70, 65, 85, 76, 84]

/-- The blank key that keeps a section alive. -/
def blank : GoString := [32]

def newConfigFile : ConfigFile :=
  { data := fun _ => none, sectionList := [], keyList := fun _ => [], sectionComments := fun _ => none
    keyComments := fun _ => none, prettyFormat := true }

/-- Blank section name represents DEFAULT section. -/
def sectionOf (name : GoString) : GoString := if name.length = 0 then defaultSection else name

namespace ConfigFile

/-- The value of a key, Go's empty string when section or key is missing. -/
def lookup (c : ConfigFile) (name key : GoString) : Option GoString := (c.data name).bind (fun kv => kv key)

/-! ## Changing values -/

/-- `SetValue`; true when the key is new. -/
def setValue (c : ConfigFile) (name key value : GoString) : Bool × ConfigFile :=
  let name := sectionOf name
  if key.length = 0 then (false, c)
  else
    let c := match c.data name with
      | some _ => c
      | none => { c with
          data := Function.update c.data name (some (fun _ => none)), sectionList := c.sectionList ++ [name] }
    let kv := (c.data name).getD (fun _ => none)
    let ok := (kv key).isSome
    let c := { c with data := Function.update c.data name (some (Function.update kv key (some value))) }
    if ok then (false, c)
    else (true, { c with keyList := Function.update c.keyList name (c.keyList name ++ [key]) })

/-- The loop that looks for `x`, then `append(l[:i], l[i+1:]...)`: none when `i+1` is out of range. -/
def cut (l : List GoString) (x : GoString) : Option (List GoString) :=
  let i := l.findIdx (fun y => y == x)
  if i + 1 ≤ l.length then some (l.take i ++ l.drop (i + 1)) else none

/-- A comment gets its `"; "` unless it starts with `#` or `;`. -/
def commentText (comments : GoString) : GoString :=
  if comments.head? = some 35 ∨ comments.head? = some 59 then comments else [59, 32] ++ comments

/-- `SetSectionComments`. -/
def setSectionComments (c : ConfigFile) (name comments : GoString) : Bool × ConfigFile :=
  let name := sectionOf name
  if comments.length = 0 then (true, { c with sectionComments := Function.update c.sectionComments name none })
  else
    ((c.sectionComments name).isNone,
      { c with sectionComments := Function.update c.sectionComments name (some (commentText comments)) })

/-- `SetKeyComments`; the section need not exist. -/
def setKeyComments (c : ConfigFile) (name key comments : GoString) : Bool × ConfigFile :=
  let name := sectionOf name
  match c.keyComments name with
  | some kc =>
    if comments.length = 0 then
      (true, { c with keyComments := Function.update c.keyComments name (some (Function.update kc key none)) })
    else
      ((kc key).isNone, { c with
        keyComments := Function.update c.keyComments name (some (Function.update kc key (some (commentText comments)))) })
  | none =>
    if comments.length = 0 then (true, c)
    else
      (true, { c with
        keyComments := Function.update c.keyComments name
          (some (Function.update (fun _ => none) key (some (commentText comments)))) })

/-- `DeleteKey`. -/
def deleteKey (c : ConfigFile) (name key : GoString) : Option (Bool × ConfigFile) :=
  let name := sectionOf name
  match c.data name with
  | none => some (false, c)
  | some kv =>
    if (kv key).isSome then
      let c := { c with data := Function.update c.data name (some (Function.update kv key none)) }
      let c := (c.setKeyComments name key []).2
      (cut (c.keyList name) key).map (fun l => (true, { c with keyList := Function.update c.keyList name l }))
    else some (false, c)

/-- `DeleteSection`; the comments of its keys stay. -/
def deleteSection (c : ConfigFile) (name : GoString) : Option (Bool × ConfigFile) :=
  let name := sectionOf name
  match c.data name with
  | none => some (false, c)
  | some _ =>
    let c := { c with data := Function.update c.data name none }
    let c := (c.setSectionComments name []).2
    (cut c.sectionList name).map (fun l =>
      (true, { c with sectionList := l, keyList := Function.update c.keyList name [] }))

def setPrettyFormat (c : ConfigFile) (pretty : Bool) : ConfigFile := { c with prettyFormat := pretty }

/-! ## Reading values -/

def getSectionList (c : ConfigFile) : List GoString := c.sectionList

/-- `GetKeyList`, `nil` for a section that does not exist. -/
def getKeyList (c : ConfigFile) (name : GoString) : Option (List GoString) :=
  (c.data (sectionOf name)).map (fun _ => (c.keyList (sectionOf name)).filter (fun key => key ≠ blank))

/-- `GetSection`: the keys and values without the blank key; `none` is `ERR_SECTION_NOT_FOUND`. -/
def getSection (c : ConfigFile) (name : GoString) : Option (GoString → Option GoString) :=
  (c.data (sectionOf name)).map (fun kv => Function.update kv blank none)

def getSectionComments (c : ConfigFile) (name : GoString) : GoString := (c.sectionComments (sectionOf name)).getD []

def getKeyComments (c : ConfigFile) (name key : GoString) : GoString :=
  ((c.keyComments (sectionOf name)).bind (fun kc => kc key)).getD []

end ConfigFile

/-! ## The reader -/

/-- The two reasons of a `ReadError`, with the line. -/
inductive ReadError where
  | blankSectionName (line : GoString)
  | couldNotParse (line : GoString)
  deriving DecidableEq

/-- The variables of `read`'s loop. -/
structure Scan where
  cfg : ConfigFile
  count : Nat
  name : GoString
  comments : GoString

def tripleQuote : GoString := [34, 34, 34]

/-- `fmt.Sprint` of the counter. -/
def sprint (n : Nat) : GoString := (Nat.toDigits 10 n).map (fun c => UInt8.ofNat c.toNat)

/-- The key of a line and where its `=` or `:` stands; `none` when the line cannot be parsed. -/
def parseKey (line : GoString) : Option (GoString × Nat) :=
  let keyQuote : GoString :=
    if line.head? = some 34 then (if 6 ≤ line.length ∧ line.take 3 = tripleQuote then tripleQuote else [34])
    else if line.head? = some 96 then [96] else []
  if keyQuote ≠ [] then
    let qLen := keyQuote.length
    match index (line.drop qLen) keyQuote with
    | none => none
    | some pos =>
      let pos := pos + qLen
      match indexAny (line.drop pos) [61, 58] with
      | some (i + 1) => some ((line.take pos).drop qLen, i + 1 + pos)
      | _ => none
  else match indexAny line [61, 58] with
    | some (i + 1) => some (trimSpace (line.take (i + 1)), i + 1)
    | _ => none

/-- The value right of the separator at `i`. -/
def parseValue (line : GoString) (i : Nat) : Option GoString :=
  let lineRight := trimSpace (line.drop (i + 1))
  let valQuote : GoString :=
    if 2 ≤ lineRight.length ∧ lineRight.head? = some 96 then [96]
    else if 6 ≤ lineRight.length ∧ lineRight.take 3 = tripleQuote then tripleQuote else []
  if valQuote ≠ [] then
    let qLen := valQuote.length
    match lastIndex (lineRight.drop qLen) valQuote with
    | none => none
    | some pos => some ((lineRight.take (pos + qLen)).drop qLen)
  else some (trimSpace lineRight)

/-- The `switch` of `read` on a trimmed line. -/
def handleLine (sc : Scan) (line : GoString) : Except ReadError Scan :=
  if line.length = 0 then .ok sc
  else if line.head? = some 35 ∨ line.head? = some 59 then
    .ok { sc with comments := if sc.comments.length = 0 then line else sc.comments ++ [10] ++ line }
  else if line.head? = some 91 ∧ line.getLast? = some 93 then
    let name := trimSpace ((line.take (line.length - 1)).drop 1)
    let cfg := if 0 < sc.comments.length then (sc.cfg.setSectionComments name sc.comments).2 else sc.cfg
    .ok { cfg := (cfg.setValue name blank blank).2, count := 1, name := name, comments := [] }
  else if sc.name = [] then .error (.blankSectionName line)
  else match parseKey line with
    | none => .error (.couldNotParse line)
    | some (key, i) =>
      let (key, count) := if key = [45] then (35 :: sprint sc.count, sc.count + 1) else (key, sc.count)
      match parseValue line i with
      | none => .error (.couldNotParse line)
      | some value =>
        let cfg := (sc.cfg.setValue sc.name key value).2
        let cfg := if 0 < sc.comments.length then (cfg.setKeyComments sc.name key sc.comments).2 else cfg
        .ok { sc with cfg := cfg, count := count, comments := [] }

/-- `ReadString('\n')`: the line, the rest, and whether it met `io.EOF`. -/
def readString (s : GoString) : GoString × GoString × Bool :=
  match s.dropWhile (fun c => c ≠ 10) with
  | [] => (s, [], true)
  | c :: rest => (s.takeWhile (fun c => c ≠ 10) ++ [c], rest, false)

/-- The loop of `read`, for a text shorter than the fuel.  After a last line without a newline it finds `io.EOF` and
nothing else, which is how that line's own `io.EOF` ends it. -/
def readLoop : Nat → Scan → GoString → Option ReadError × Scan
  | 0, sc, _ => (none, sc)
  | n + 1, sc, s =>
    match readString s with
    | (line, rest, eof) =>
      let line := trimSpace line
      if eof ∧ line.length = 0 then (none, sc)
      else match handleLine sc line with
        | .error e => (some e, sc)
        | .ok sc => readLoop n sc rest

def bom : GoString := [239, 187, 191]

/-- `read`: the error, and the configuration as it is by then. -/
def read (c : ConfigFile) (text : GoString) : Option ReadError × ConfigFile :=
  let text := if bom <+: text then text.drop 3 else text
  let (e, sc) := readLoop (text.length + 1) ⟨c, 1, defaultSection, []⟩ text
  (e, sc.cfg)

/-- `LoadFromReader`, `LoadFromData` and, of one file, `LoadConfigFile`. -/
def loadFromReader (text : GoString) : Option ReadError × ConfigFile := read newConfigFile text

/-! ## The writer -/

def newline : GoString := [10]

/-- A key as it is written: `-` for an automatic one, in quotes around `=` and `:`; `none` is the panic of `keyName[0]`. -/
def keyText (key : GoString) : Option GoString :=
  key.head?.map (fun first =>
    let keyName : GoString := if first = 35 then [45] else key
    if 61 ∈ keyName ∨ 58 ∈ keyName then
      if 96 ∈ keyName then (if 34 ∈ keyName then tripleQuote ++ keyName ++ tripleQuote else [34] ++ keyName ++ [34])
      else [96] ++ keyName ++ [96]
    else keyName)

def valueText (value : GoString) : GoString :=
  if 96 ∈ value then (if 34 ∈ value then tripleQuote ++ value ++ tripleQuote else [34] ++ value ++ [34]) else value

def equalSign (pretty : Bool) : GoString := if pretty then [32, 61, 32] else [61]

/-- Comments and a line break, if there are any. -/
def commentLines (comments : GoString) : GoString := if 0 < comments.length then comments ++ newline else []

def saveKey (c : ConfigFile) (name key : GoString) : Option GoString :=
  if key = blank then some []
  else (keyText key).map (fun keyName =>
    commentLines (c.getKeyComments name key) ++ keyName ++ equalSign c.prettyFormat ++
      valueText ((c.lookup name key).getD []) ++ newline)

def saveSection (c : ConfigFile) (name : GoString) : Option GoString :=
  ((c.keyList name).mapM (saveKey c name)).map (fun keys =>
    commentLines (c.getSectionComments name) ++ (if name ≠ defaultSection then [91] ++ name ++ [93] ++ newline else []) ++
      keys.flatten ++ newline)

/-- `SaveConfigData`. -/
def saveConfigData (c : ConfigFile) : Option GoString := (c.sectionList.mapM (saveSection c)).map List.flatten

end GoConfig
end Xrtc
