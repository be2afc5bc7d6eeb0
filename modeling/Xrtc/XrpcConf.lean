import Xrtc.Client
/-!
# XrpcConf — loading the RPC clients from the configuration

`loadXrpc` of `framework/xrpc.go` over a `goconfig.ConfigFile`: the list of sections in file order and, for each section
that exists, its keys and values.  The loop is `loadSections`; what it registers for a section depends on that section
alone (`clientOf`).
-/
namespace Xrtc
namespace XrpcConf

variable {A : Type}

abbrev Section := GoString → Option GoString

/-- The part of `goconfig.ConfigFile` that `GetSectionList` and `GetSection` read. -/
structure ConfigFile where
  sectionList : List GoString
  data : GoString → Option Section

def defaultSection : GoString := [68, 69, 70, 65, 85, 76, 84]

inductive LoadErr where
  | sectionNotFound (name : GoString)
  | comError (errNum : Int) (errMsg : String)
  deriving DecidableEq

/-- `GetSection`: a copy without the blank key that keeps the section alive. -/
def ConfigFile.getSection (cfg : ConfigFile) (name : GoString) : Except LoadErr Section :=
  let name := if name.length = 0 then defaultSection else name
  match cfg.data name with
  | none => .error (.sectionNotFound name)
  | some kv => .ok (fun key => if key = [32] then none else kv key)

/-- The prefix `xrpc.` and the keys `loadXrpc` looks up. -/
def xrpcDot : GoString := [120, 114, 112, 99, 46]

def serverKey : GoString := [115, 101, 114, 118, 101, 114]

def connectTimeoutKey : GoString := [99, 111, 110, 110, 101, 99, 116, 84, 105, 109, 101, 111, 117, 116]

def readTimeoutKey : GoString := [114, 101, 97, 100, 84, 105, 109, 101, 111, 117, 116]

def writeTimeoutKey : GoString := [119, 114, 105, 116, 101, 84, 105, 109, 101, 111, 117, 116]

/-- The comma-separated entries of a server value, trimmed. -/
def entries (values : GoString) : List GoString := (GoText.split values 44).map GoText.trimSpace

/-- A timeout in milliseconds as `time.Duration`, when the key is there and its value is a number; the multiplication
is that of `int64`. -/
def durationOf (kv : Section) (key : GoString) (old : Int) : Int :=
  match kv key with
  | none => old
  | some values => match GoText.atoi values with
    | none => old
    | some n => (n * millisecond).bmod 18446744073709551616

/-- The client `loadXrpc` makes for a section with these keys and this server value. -/
def makeClient (resolve : GoString → Except String A) (kv : Section) (values : GoString) : Client A :=
  let client := newClient resolve (entries values)
  { client with
    ConnectTimeout := durationOf kv connectTimeoutKey client.ConnectTimeout
    ReadTimeout := durationOf kv readTimeoutKey client.ReadTimeout
    WriteTimeout := durationOf kv writeTimeoutKey client.WriteTimeout }

abbrev Clients (A : Type) := GoString → Option (Client A)

/-- The loop of `loadXrpc`: the error it returns, and the clients registered by then. -/
def loadSections (resolve : GoString → Except String A) (cfg : ConfigFile) :
    List GoString → Clients A → Option LoadErr × Clients A
  | [], clients => (none, clients)
  | name :: names, clients =>
    if ¬xrpcDot <+: name then loadSections resolve cfg names clients
    else match cfg.getSection name with
      | .error e => (some e, clients)
      | .ok kv => match kv serverKey with
        | none => (some (.comError 1 "no server field in config file"), clients)
        | some values =>
          loadSections resolve cfg names (Function.update clients name (some (makeClient resolve kv values)))

/-- `loadXrpc`, called once with no client registered. -/
def loadXrpc (resolve : GoString → Except String A) (cfg : ConfigFile) : Option LoadErr × Clients A :=
  loadSections resolve cfg cfg.sectionList (fun _ => none)

def ConfigFile.serverOf (cfg : ConfigFile) (name : GoString) : Option GoString :=
  match cfg.getSection name with
  | .error _ => none
  | .ok kv => kv serverKey

def ConfigFile.IsService (cfg : ConfigFile) (name : GoString) : Prop :=
  name ∈ cfg.sectionList ∧ xrpcDot <+: name

/-- Every pick of a selector that nobody sets again finds a server, in every interleaving of calls. -/
def NeverLacks (resolve : GoString → Except String A) (rrs : RoundRobinSelector A) : Prop :=
  ∀ acts s, (∀ list, .set list ∉ acts) → Lts.run (Selector.step resolve) (Selector.ready rrs) acts = some s →
    ∀ index past pick, .returned index past pick ∈ s.calls → ∃ a ∈ rrs.addrs, pick = .addr a

/-- **All or nothing**: if `loadXrpc` returns nil, the client of every service holds the resolved addresses of all
entries of its server value, in order, and never lacks a server. -/
def AllOrNothing (resolve : GoString → Except String A) (cfg : ConfigFile) : Prop :=
  ∀ clients, loadXrpc resolve cfg = (none, clients) → ∀ name, cfg.IsService name →
    ∃ values client, cfg.serverOf name = some values ∧ clients name = some client ∧
      (entries values).map resolve = client.selector.addrs.map .ok ∧ NeverLacks resolve client.selector

/-- Unless some service has no server value, every entry of every service resolves. -/
def Resolvable (resolve : GoString → Except String A) (cfg : ConfigFile) : Prop :=
  (∀ name, cfg.IsService name → ∃ values, cfg.serverOf name = some values) →
    ∀ name values, cfg.IsService name → cfg.serverOf name = some values →
      ∀ entry ∈ entries values, ∃ a, resolve entry = .ok a

/-! ## What the loop registers -/

theorem entries_ne_nil (values : GoString) : entries values ≠ [] := by
  intro h
  exact GoText.split_ne_nil values 44 (List.map_eq_nil_iff.1 h)

def clientOf (resolve : GoString → Except String A) (cfg : ConfigFile) (name : GoString) : Option (Client A) :=
  match cfg.getSection name with
  | .error _ => none
  | .ok kv => (kv serverKey).map (makeClient resolve kv)

theorem clientOf_eq {resolve : GoString → Except String A} {cfg : ConfigFile} {name values : GoString}
    (h : cfg.serverOf name = some values) :
    ∃ client, clientOf resolve cfg name = some client ∧
      client.selector = (newClient resolve (entries values)).selector := by
  unfold ConfigFile.serverOf at h
  unfold clientOf
  split at h
  · cases h
  · rename_i kv hkv
    rw [h]
    exact ⟨makeClient resolve kv values, rfl, rfl⟩

/-- **The loop**: it returns nil exactly when all services it meets have a server value, and then it has registered the
client of each. -/
theorem loadSections_spec (resolve : GoString → Except String A) (cfg : ConfigFile) :
    ∀ (names : List GoString) (clients : Clients A),
      ((loadSections resolve cfg names clients).1 = none ↔
        ∀ name ∈ names, xrpcDot <+: name → (cfg.serverOf name).isSome = true) ∧
      ((loadSections resolve cfg names clients).1 = none → ∀ name,
        (loadSections resolve cfg names clients).2 name =
          if name ∈ names ∧ xrpcDot <+: name then clientOf resolve cfg name else clients name)
  | [], clients => by simp [loadSections]
  | name :: names, clients => by
    rw [loadSections]
    by_cases hpre : xrpcDot <+: name
    swap
    · -- not a service: skipped
      obtain ⟨hnone, hclients⟩ := loadSections_spec resolve cfg names clients
      rw [if_pos hpre]
      refine ⟨?_, fun h other => ?_⟩
      · rw [hnone]
        simp [hpre]
      · rw [hclients h]
        by_cases hother : other = name
        · subst hother
          simp [hpre]
        · simp [hother]
    · rw [if_neg (not_not_intro hpre)]
      cases hget : cfg.getSection name with
      | error e => simp [ConfigFile.serverOf, hget, hpre]
      | ok kv =>
        simp only
        cases hserver : kv serverKey with
        | none => simp [ConfigFile.serverOf, hget, hpre, hserver]
        | some values =>
          have hthis : cfg.serverOf name = some values := by simp [ConfigFile.serverOf, hget, hserver]
          have hclient : clientOf resolve cfg name = some (makeClient resolve kv values) := by
            simp [clientOf, hget, hserver]
          obtain ⟨hnone, hclients⟩ := loadSections_spec resolve cfg names
            (Function.update clients name (some (makeClient resolve kv values)))
          refine ⟨?_, fun h other => ?_⟩
          · simp only
            rw [hnone]
            simp [hthis]
          · simp only at h ⊢
            rw [hclients h]
            by_cases hother : other = name
            · subst hother
              simp [hpre, hclient]
            · simp [hother]

theorem resolveAll_ok_iff {resolve : GoString → Except String A} : ∀ {servers : List GoString} {addrs : List A},
    RoundRobinSelector.resolveAll resolve servers = .ok addrs ↔ servers.map resolve = addrs.map .ok
  | [], addrs => by
    cases addrs with
    | nil => simp [RoundRobinSelector.resolveAll]
    | cons a addrs => simp [RoundRobinSelector.resolveAll]
  | server :: servers, addrs => by
    rw [RoundRobinSelector.resolveAll]
    cases hres : resolve server with
    | error e => cases addrs <;> simp [hres]
    | ok a =>
      simp only
      cases hrest : RoundRobinSelector.resolveAll resolve servers with
      | error e =>
        have hno : ∀ as : List A, servers.map resolve ≠ as.map .ok := by
          intro as has
          rw [resolveAll_ok_iff.2 has] at hrest
          cases hrest
        cases addrs with
        | nil => simp
        | cons b bs => simp [hno bs]
      | ok as =>
        have has := resolveAll_ok_iff.1 hrest
        have hinj : ∀ bs : List A, servers.map resolve = bs.map .ok ↔ as = bs := by
          intro bs
          rw [has]
          exact (List.map_injective_iff.2 (fun x y h => by cases h; rfl)).eq_iff
        cases addrs with
        | nil => simp
        | cons b bs => simp [hres, hinj bs]

theorem exists_resolved {resolve : GoString → Except String A} : ∀ {servers : List GoString},
    (∀ entry ∈ servers, ∃ a, resolve entry = .ok a) → ∃ addrs : List A, servers.map resolve = addrs.map .ok
  | [], _ => ⟨[], rfl⟩
  | server :: servers, h => by
    obtain ⟨a, ha⟩ := h server List.mem_cons_self
    obtain ⟨addrs, haddrs⟩ := exists_resolved (fun entry he => h entry (List.mem_cons_of_mem _ he))
    exact ⟨a :: addrs, by simp [ha, haddrs]⟩

theorem newClient_selector {resolve : GoString → Except String A} {servers : List GoString} {addrs : List A}
    (hne : servers ≠ []) (h : servers.map resolve = addrs.map .ok) :
    (newClient resolve servers).selector.addrs = addrs ∧ NeverLacks resolve (newClient resolve servers).selector := by
  have hlen : ¬servers.length = 0 := fun h0 => hne (List.length_eq_zero_iff.1 h0)
  have hset : RoundRobinSelector.setServer resolve .new servers = (none, ⟨addrs, 0⟩) := by
    unfold RoundRobinSelector.setServer
    rw [if_neg hlen, resolveAll_ok_iff.2 h]
    rfl
  have hsel : (newClient resolve servers).selector = ⟨addrs, 0⟩ := by
    simp only [newClient, hset]
  rw [hsel]
  refine ⟨rfl, ?_⟩
  intro acts s hno hrun index past pick hmem
  have hpos : 0 < addrs.length := by
    have := congrArg List.length h
    simp only [List.length_map] at this
    omega
  have hrr := Selector.roundRobin_run hpos rfl acts s hrun hno
  obtain ⟨a, ha, hpick⟩ := hrr.returned index past pick hmem
  exact ⟨a, List.mem_of_getElem? ha, hpick⟩

/-- **`loadXrpc` is all or nothing exactly when every entry resolves** (or some service has no server value, and it
returns an error). -/
theorem load_all_or_nothing_iff (resolve : GoString → Except String A) (cfg : ConfigFile) :
    AllOrNothing resolve cfg ↔ Resolvable resolve cfg := by
  obtain ⟨hnone, hclients⟩ := loadSections_spec resolve cfg cfg.sectionList (fun _ => none)
  have hservices : (∀ name ∈ cfg.sectionList, xrpcDot <+: name → (cfg.serverOf name).isSome = true) ↔
      ∀ name, cfg.IsService name → ∃ values, cfg.serverOf name = some values := by
    simp only [ConfigFile.IsService, Option.isSome_iff_exists, and_imp]
  constructor
  · intro hall hserver name values hname hvalues entry hentry
    have hok : (loadXrpc resolve cfg).1 = none := hnone.2 (hservices.2 hserver)
    obtain ⟨values', client, hvalues', -, hmap, -⟩ := hall _ (Prod.ext hok rfl) name hname
    rw [hvalues] at hvalues'
    cases hvalues'
    have hmem : resolve entry ∈ client.selector.addrs.map .ok := hmap ▸ List.mem_map_of_mem hentry
    obtain ⟨a, -, ha⟩ := List.mem_map.1 hmem
    exact ⟨a, ha.symm⟩
  · intro hres clients hload name hname
    have hok : (loadXrpc resolve cfg).1 = none := by rw [hload]
    have hserver := hservices.1 (hnone.1 hok)
    obtain ⟨values, hvalues⟩ := hserver name hname
    obtain ⟨client, hclient, hsel⟩ := @clientOf_eq A resolve cfg name values hvalues
    obtain ⟨addrs, haddrs⟩ := exists_resolved (hres hserver name values hname hvalues)
    obtain ⟨hheld, hlacks⟩ := newClient_selector (entries_ne_nil values) haddrs
    refine ⟨values, client, hvalues, ?_, ?_, ?_⟩
    · have := hclients hok name
      rw [if_pos ⟨hname.1, hname.2⟩, hclient] at this
      have hsnd : clients = (loadXrpc resolve cfg).2 := by rw [hload]
      rw [hsnd]
      exact this
    · rw [hsel, hheld]
      exact haddrs
    · rw [hsel]
      exact hlacks

/-- `xrpc.xrtc`. -/
def xrtcName : GoString := xrpcDot ++ [120, 114, 116, 99]

/-- `[xrpc.xrtc]` with `server = a:1, b`, and a resolver that needs a port. -/
def oneService : ConfigFile where
  sectionList := [xrtcName]
  data := fun name => if name = xrtcName then
    some (fun key => if key = serverKey then some [97, 58, 49, 44, 32, 98] else none) else none

def needsPort (server : GoString) : Except String GoString :=
  if 58 ∈ server then .ok server else .error "missing port in address"

theorem load_ignores_unresolved :
    ¬ ∀ (resolve : GoString → Except String GoString) (cfg : ConfigFile), AllOrNothing resolve cfg := by
  intro hall
  have hname : oneService.IsService xrtcName := by
    unfold ConfigFile.IsService
    decide
  have hok : (loadXrpc needsPort oneService).1 = none := by decide
  have hload : loadXrpc needsPort oneService = (none, (loadXrpc needsPort oneService).2) := Prod.ext hok rfl
  have hempty : ((loadXrpc needsPort oneService).2 xrtcName).map (fun client => client.selector.addrs) = some [] := by
    decide
  obtain ⟨values, client, -, hclient, hmap, -⟩ := hall needsPort oneService _ hload xrtcName hname
  rw [hclient, Option.map_some, Option.some.injEq] at hempty
  rw [hempty] at hmap
  exact entries_ne_nil values (List.map_eq_nil_iff.1 hmap)

end XrpcConf
end Xrtc
