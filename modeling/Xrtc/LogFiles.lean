import Mathlib.Data.List.Flatten
import Xrtc.LogThread
/-!
# LogFiles — the log thread and its two files, when somebody removes or replaces them

The head of an iteration of `XrtcLog::start_log_thread` (`base/log.cpp`) that `LogThread` passes over: for each of the
two files, `stat` on its name, and when the name is gone, `close` and `open` in append mode.  Between any two statements
others may remove the name of a file (or rename it away) or put a new file under it; what was opened under a name stays
open.  A file is a number, in the order of creation, and holds the batches written to it.
-/
namespace Xrtc
namespace LogFiles

/-! ## A name and the stream opened on it -/

/-- What the name stands for, what the stream is open on, and what every file made under the name holds.  The last three
fields are history: removals, failed opens, and batches that did not go to the file of that name. -/
structure Disk (T : Type) where
  name : Option Nat
  handle : Option Nat
  made : Nat
  text : Nat → List T
  removed : Nat
  failed : Nat
  strays : Nat

section Disk
variable {T : Type}

/-- As `InitLog` leaves it. -/
def Disk.fresh : Disk T := ⟨some 0, some 0, 1, fun _ => [], 0, 0, 0⟩

def Disk.remove (d : Disk T) : Disk T := { d with name := none, removed := d.removed + 1 }

def Disk.create (d : Disk T) : Disk T := { d with name := some d.made, made := d.made + 1 }

/-- `close` and `open(…, std::ios::app)`; a stream that could not be opened drops what is written to it. -/
def Disk.reopen (d : Disk T) (ok : Bool) : Disk T :=
  if ok = true then match d.name with
    | some k => { d with handle := some k }
    | none => { d with name := some d.made, handle := some d.made, made := d.made + 1 }
  else { d with handle := none, failed := d.failed + 1 }

def Disk.Named (d : Disk T) : Prop := d.handle.isSome = true ∧ d.handle = d.name

instance (d : Disk T) : Decidable d.Named := inferInstanceAs (Decidable (d.handle.isSome = true ∧ d.handle = d.name))

def Disk.write (d : Disk T) (x : T) : Disk T :=
  let strays := if d.Named then d.strays else d.strays + 1
  match d.handle with
  | none => { d with strays := strays }
  | some k => { d with strays := strays, text := Function.update d.text k (d.text k ++ [x]) }

/-- The files one after the other. -/
def Disk.texts (d : Disk T) : List T := (List.range d.made).flatMap d.text

/-- Read one after the other the files hold `all` in its order, and the whole of it unless an open has failed. -/
structure Sound (d : Disk T) (all : List T) : Prop where
  latest : ∀ k, d.name = some k → k + 1 = d.made
  opened : ∀ k, d.handle = some k → k < d.made ∧ ∀ j, k < j → d.text j = []
  blank : ∀ j, d.made ≤ j → d.text j = []
  alive : d.failed = 0 → d.handle.isSome = true
  kept : d.texts.Sublist all
  whole : d.failed = 0 → d.texts = all

variable {d : Disk T} {all : List T}

theorem sound_fresh : Sound (Disk.fresh : Disk T) [] := by
  refine ⟨fun k hk => ?_, fun k hk => ?_, fun _ _ => rfl, fun _ => rfl, ?_, fun _ => rfl⟩
  · cases hk
    rfl
  · cases hk
    exact ⟨Nat.zero_lt_one, fun _ _ => rfl⟩
  · exact List.Sublist.refl []

theorem Sound.remove (h : Sound d all) : Sound d.remove all :=
  ⟨fun _ hk => (nomatch hk), h.opened, h.blank, h.alive, h.kept, h.whole⟩

theorem texts_succ (h : Sound d all) (d' : Disk T) (hmade : d'.made = d.made + 1) (htext : d'.text = d.text) :
    d'.texts = d.texts := by
  unfold Disk.texts
  rw [hmade, htext, List.range_succ, List.flatMap_append, List.flatMap_singleton, h.blank _ (Nat.le_refl _),
    List.append_nil]

/-- An empty file more, under the name, and opened or not. -/
theorem Sound.grow (h : Sound d all) {d' : Disk T} (hmade : d'.made = d.made + 1) (htext : d'.text = d.text)
    (hname : d'.name = some d.made) (hfailed : d'.failed = d.failed)
    (hhandle : d'.handle = some d.made ∨ d'.handle = d.handle) : Sound d' all := by
  have htexts := texts_succ h d' hmade htext
  refine ⟨fun k hk => ?_, fun k hk => ?_, fun j hj => ?_, fun hf => ?_, htexts ▸ h.kept, fun hf => ?_⟩
  · rw [hname, Option.some.injEq] at hk
    rw [hmade, hk]
  · rw [hmade, htext]
    rcases hhandle with hnew | hsame
    · rw [hnew, Option.some.injEq] at hk
      exact ⟨by omega, fun j hj => h.blank j (by omega)⟩
    · obtain ⟨hlt, hlast⟩ := h.opened k (hsame ▸ hk)
      exact ⟨by omega, hlast⟩
  · rw [htext]
    exact h.blank j (by omega)
  · rcases hhandle with hnew | hsame
    · rw [hnew]
      rfl
    · rw [hsame]
      exact h.alive (hfailed ▸ hf)
  · rw [htexts]
    exact h.whole (hfailed ▸ hf)

theorem Sound.create (h : Sound d all) : Sound d.create all := h.grow rfl rfl rfl rfl (.inr rfl)

theorem reopen_some {k : Nat} (hn : d.name = some k) : d.reopen true = { d with handle := some k } := by
  simp only [Disk.reopen, if_true, hn]

theorem reopen_none (hn : d.name = none) :
    d.reopen true = { d with name := some d.made, handle := some d.made, made := d.made + 1 } := by
  simp only [Disk.reopen, if_true, hn]

theorem Sound.reopen (h : Sound d all) (ok : Bool) : Sound (d.reopen ok) all := by
  cases ok with
  | false => exact ⟨h.latest, fun _ hk => (nomatch hk), h.blank, fun hf => (nomatch hf), h.kept, fun hf => (nomatch hf)⟩
  | true =>
    cases hn : d.name with
    | none =>
      rw [reopen_none hn]
      exact h.grow rfl rfl rfl rfl (.inl rfl)
    | some k =>
      have hk := h.latest k hn
      rw [reopen_some hn]
      refine ⟨h.latest, fun j hj => ?_, h.blank, fun _ => rfl, h.kept, h.whole⟩
      cases hj
      exact ⟨Nat.lt_of_succ_le (Nat.le_of_eq hk), fun j hj => h.blank j (by omega)⟩

/-- Writing to the last file that holds anything is writing behind everything. -/
theorem texts_write (h : Sound d all) {k : Nat} (hk : d.handle = some k) (x : T) :
    (List.range d.made).flatMap (Function.update d.text k (d.text k ++ [x])) = d.texts ++ [x] := by
  obtain ⟨hlt, hlast⟩ := h.opened k hk
  have hsplit : List.range d.made = List.range k ++ k :: (List.range (d.made - k - 1)).map (k + 1 + ·) := by
    have hrange := List.range_add (n := k) (m := d.made - k)
    rw [Nat.add_sub_cancel' (by omega : k ≤ d.made)] at hrange
    rw [hrange]
    congr 1
    obtain ⟨n, hn⟩ : ∃ n, d.made - k = n + 1 := ⟨d.made - k - 1, by omega⟩
    rw [hn, List.range_succ_eq_map, List.map_cons, List.map_map, Nat.add_sub_cancel]
    simp [Function.comp_def, Nat.add_assoc, Nat.add_comm 1]
  have hrest : ∀ f : Nat → List T, (∀ j, k < j → f j = []) →
      ((List.range (d.made - k - 1)).map (k + 1 + ·)).flatMap f = [] := by
    intro f hf
    rw [List.flatMap_eq_nil_iff]
    intro j hj
    obtain ⟨i, -, rfl⟩ := List.mem_map.1 hj
    exact hf _ (by omega)
  have hlow : (List.range k).flatMap (Function.update d.text k (d.text k ++ [x])) = (List.range k).flatMap d.text := by
    refine List.flatMap_congr (fun j hj => ?_)
    rw [Function.update_of_ne (Nat.ne_of_lt (List.mem_range.1 hj))]
  unfold Disk.texts
  rw [hsplit, List.flatMap_append, List.flatMap_append, List.flatMap_cons, List.flatMap_cons, hlow,
    Function.update_self, hrest _ hlast, hrest _ (fun j hj => ?_)]
  · simp
  · rw [Function.update_of_ne (by omega)]
    exact hlast j hj

theorem Sound.write (h : Sound d all) (x : T) : Sound (d.write x) (all ++ [x]) := by
  unfold Disk.write
  cases hh : d.handle with
  | none =>
    have hfailed : d.failed ≠ 0 := by
      intro hf
      have halive := h.alive hf
      rw [hh] at halive
      cases halive
    exact ⟨h.latest, fun k hk => h.opened k (hh ▸ hk), h.blank, fun hf => absurd hf hfailed,
      h.kept.trans (List.sublist_append_left _ _), fun hf => absurd hf hfailed⟩
  | some k =>
    obtain ⟨hlt, hlast⟩ := h.opened k hh
    have htexts := texts_write h hh x
    refine ⟨h.latest, fun j hj => ?_, fun j hj => ?_, fun _ => rfl, ?_, fun hf => ?_⟩
    · cases hj
      refine ⟨hlt, fun j hj => ?_⟩
      simp only
      rw [Function.update_of_ne (by omega)]
      exact hlast j hj
    · simp only
      rw [Function.update_of_ne (by simp only at hj; omega)]
      exact h.blank j hj
    · show List.Sublist ((List.range d.made).flatMap _) _
      rw [htexts]
      exact h.kept.append (List.Sublist.refl _)
    · show (List.range d.made).flatMap _ = _
      rw [htexts, h.whole hf]

/-- Only the thread makes files.  Every batch that went astray is paid for by a removal or a failed open, the one that
is `due` included when the name is gone. -/
structure Paid (d : Disk T) (due : Bool) : Prop where
  same : ∀ k, d.name = some k → d.handle = some k
  cost : d.strays + (if due = true ∧ d.name = none then 1 else 0) ≤ d.removed + d.failed

variable {due : Bool}

theorem paid_fresh (due : Bool) : Paid (Disk.fresh : Disk T) due :=
  ⟨fun _ hk => hk, by simp [Disk.fresh]⟩

theorem Paid.strays_le (h : Paid d due) : d.strays ≤ d.removed + d.failed :=
  Nat.le_trans (Nat.le_add_right _ _) h.cost

theorem Paid.mono (h : Paid d due) {due' : Bool} (hle : due' = true → due = true) : Paid d due' := by
  refine ⟨h.same, ?_⟩
  have hcost := h.cost
  have hle' : (if due' = true ∧ d.name = none then 1 else 0) ≤ (if due = true ∧ d.name = none then 1 else 0) := by
    split
    · rename_i hd
      exact Nat.le_of_eq (if_pos ⟨hle hd.1, hd.2⟩).symm
    · exact Nat.zero_le _
  omega

theorem Paid.remove (h : Paid d due) (due' : Bool) : Paid d.remove due' := by
  refine ⟨fun _ hk => (nomatch hk), ?_⟩
  have hle := h.strays_le
  simp only [Disk.remove]
  split <;> omega

/-- `stat` has found the name. -/
theorem Paid.found (h : Paid d due) (hn : d.name.isNone = false) (due' : Bool) : Paid d due' := by
  refine ⟨h.same, ?_⟩
  have hne : d.name ≠ none := by
    intro hnone
    rw [hnone] at hn
    cases hn
  rw [if_neg (fun hd => hne hd.2)]
  exact h.strays_le

theorem Paid.reopen (h : Paid d due) (hn : d.name = none) (ok due' : Bool) : Paid (d.reopen ok) due' := by
  have hle := h.strays_le
  cases ok with
  | false =>
    refine ⟨fun k hk => ?_, ?_⟩
    · rw [show (d.reopen false).name = d.name from rfl, hn] at hk
      cases hk
    · simp only [Disk.reopen, Bool.false_eq_true, if_false]
      split <;> omega
  | true =>
    rw [reopen_none hn]
    refine ⟨fun _ hk => hk, ?_⟩
    simp only [reduceCtorEq, and_false, if_false]
    exact hle

theorem Paid.write (h : Paid d true) (x : T) : Paid (d.write x) false := by
  have hname : (d.write x).name = d.name ∧ (d.write x).handle = d.handle ∧
      (d.write x).removed = d.removed ∧ (d.write x).failed = d.failed ∧
      (d.write x).strays = if d.Named then d.strays else d.strays + 1 := by
    unfold Disk.write
    cases d.handle <;> exact ⟨rfl, rfl, rfl, rfl, rfl⟩
  obtain ⟨hn, hh, hr, hf, hs⟩ := hname
  refine ⟨fun k hk => ?_, ?_⟩
  · rw [hh]
    exact h.same k (hn ▸ hk)
  · rw [hr, hf, hs]
    have hcost := h.cost
    simp only [Bool.false_eq_true, false_and, if_false, Nat.add_zero]
    split
    · exact h.strays_le
    · rename_i hnot
      have hnone : d.name = none := by
        cases hd : d.name with
        | none => rfl
        | some k => exact absurd ⟨by rw [h.same k hd]; rfl, (h.same k hd).trans hd.symm⟩ hnot
      rw [if_pos ⟨rfl, hnone⟩] at hcost
      exact hcost

end Disk

/-! ## The thread -/

open LogThread (Msg Pc)

inductive Which where
  | out
  | err
  deriving DecidableEq

/-- Where the thread is in the checks at the head of an iteration. -/
inductive Check where
  | ready
  | stat (w : Which)
  | reopen (w : Which)
  deriving DecidableEq

structure St where
  base : LogThread.St
  check : Check
  disk : Which → Disk (List Msg)

/-- `call` is a step of the other threads; `thread` is the log thread's next statement, with what an `open` would
answer. -/
inductive Label where
  | call (l : LogThread.Label)
  | thread (ok : Bool)
  | remove (w : Which)
  | create (w : Which)

def init : St := ⟨LogThread.init, .ready, fun _ => Disk.fresh⟩

def nextCheck : Which → Check
  | .out => .stat .err
  | .err => .ready

/-- The file the next statement writes its batch to. -/
def writes : Pc → Option Which
  | .writeLog true => some .out
  | .writeErr true => some .err
  | _ => none

/-- The files behind the thread's next statement. -/
def writeBatch (s : St) (w : Which) : Disk (List Msg) :=
  if writes s.base.pc = some w then (s.disk w).write s.base.ss else s.disk w

def threadStep (s : St) (ok : Bool) : Option St :=
  match s.check with
  | .stat w => some { s with check := if (s.disk w).name.isNone = true then .reopen w else nextCheck w }
  | .reopen w => some { s with check := nextCheck w, disk := Function.update s.disk w ((s.disk w).reopen ok) }
  | .ready => (LogThread.threadStep s.base).map (fun base => {
      base := base
      check := if base.pc = .drainLog then .stat .out else .ready
      disk := writeBatch s })

def step (s : St) : Label → Option St
  | .call .thread => none
  | .call l => (LogThread.step s.base l).map (fun base => { s with base := base })
  | .thread ok => threadStep s ok
  | .remove w =>
    if (s.disk w).name.isSome = true then some { s with disk := Function.update s.disk w (s.disk w).remove } else none
  | .create w =>
    if (s.disk w).name.isNone = true then some { s with disk := Function.update s.disk w (s.disk w).create } else none

/-- The batches written to a file, whatever has become of it. -/
def written : Which → LogThread.St → List (List Msg)
  | .out, b => b.outFile
  | .err, b => b.errFile

def logged : Which → LogThread.St → List Msg
  | .out, b => b.loggedOut
  | .err, b => b.loggedErr

/-- The checks are over and the file's write of the iteration is still to come. -/
def due : Which → Check → Pc → Bool
  | .out, .stat .err, _ | .out, .reopen .err, _ => true
  | .out, .ready, .drainLog | .out, .ready, .writeLog _ => true
  | .err, .ready, .drainLog | .err, .ready, .writeLog _ | .err, .ready, .drainErr | .err, .ready, .writeErr _ => true
  | _, _, _ => false

/-- A step of the other threads leaves the files alone, and the log thread where it was in its iteration. -/
theorem call_frame {b b' : LogThread.St} {l : LogThread.Label} (hl : l ≠ .thread) (hs : LogThread.step b l = some b')
    (w : Which) : written w b' = written w b ∧ ∀ c, due w c b'.pc = due w c b.pc := by
  cases l with
  | log severity text =>
    cases hs
    unfold LogThread.onLogMessage
    simp only
    split
    · cases w <;> exact ⟨rfl, fun _ => rfl⟩
    · cases w <;> exact ⟨rfl, fun _ => rfl⟩
  | thread => exact absurd rfl hl
  | ret m =>
    simp only [LogThread.step] at hs
    split at hs
    · cases hs
      cases w <;> exact ⟨rfl, fun _ => rfl⟩
    · cases hs
  | start =>
    simp only [LogThread.step] at hs
    split at hs
    · rename_i hpc
      cases hs
      refine ⟨by cases w <;> rfl, fun c => ?_⟩
      rw [hpc]
      rcases c with _ | ⟨_ | _⟩ | ⟨_ | _⟩ <;> cases w <;> rfl
    · cases hs
  | stop =>
    simp only [LogThread.step] at hs
    split at hs
    · cases hs
      cases w <;> exact ⟨rfl, fun _ => rfl⟩
    · cases hs
  | join =>
    simp only [LogThread.step] at hs
    split at hs
    · cases hs
      cases w <;> exact ⟨rfl, fun _ => rfl⟩
    · cases hs

/-- **What a step does**, to the lines, to a file and to what is due of it. -/
inductive Move (s : St) (w : Which) : Label → St → Prop
  | call {l : Label} {s' : St} (hdisk : s'.disk w = s.disk w) (hall : written w s'.base = written w s.base)
      (hdue : due w s'.check s'.base.pc = true → due w s.check s.base.pc = true) : Move s w l s'
  | found {l : Label} {s' : St} (hc : s.check = .stat w) (hn : (s.disk w).name.isNone = false)
      (hdisk : s'.disk w = s.disk w) (hall : written w s'.base = written w s.base) : Move s w l s'
  | reopen {s' : St} {ok : Bool} (hc : s.check = .reopen w) (hdisk : s'.disk w = (s.disk w).reopen ok)
      (hall : written w s'.base = written w s.base) : Move s w (.thread ok) s'
  | write {l : Label} {s' : St} (hdisk : s'.disk w = (s.disk w).write s.base.ss)
      (hall : written w s'.base = written w s.base ++ [s.base.ss]) (hdue : due w s.check s.base.pc = true)
      (hdue' : due w s'.check s'.base.pc = false) : Move s w l s'
  | remove {s' : St} (hdisk : s'.disk w = (s.disk w).remove) (hall : written w s'.base = written w s.base) :
      Move s w (.remove w) s'
  | create {s' : St} (hn : (s.disk w).name = none) (hdisk : s'.disk w = (s.disk w).create)
      (hall : written w s'.base = written w s.base) : Move s w (.create w) s'

/-- The statements of an iteration behind its checks. -/
theorem ready_move {s : St} (hc : s.check = .ready) {base : LogThread.St} (hb : LogThread.threadStep s.base = some base)
    (ok : Bool) (w : Which) :
    Move s w (.thread ok) ⟨base, if base.pc = .drainLog then .stat .out else .ready, writeBatch s⟩ := by
  have hquiet : writes s.base.pc ≠ some w → writeBatch s w = s.disk w := fun hw => if_neg hw
  have hwrite : writes s.base.pc = some w → writeBatch s w = (s.disk w).write s.base.ss := fun hw => if_pos hw
  cases LogThread.threadStep_move hb with
  | test hpc =>
    rw [hpc] at hquiet
    refine .call (hquiet (by simp [writes])) (by cases w <;> rfl) ?_
    simp only
    cases s.base.running with
    | true => cases w <;> exact fun hd => (nomatch hd)
    | false => cases w <;> exact fun hd => (nomatch hd)
  | drainLog hpc =>
    rw [hpc] at hquiet
    refine .call (hquiet (by simp [writes])) (by cases w <;> rfl) (fun _ => ?_)
    rw [hc, hpc]
    cases w <;> rfl
  | @writeLog flag hpc =>
    rw [hpc] at hquiet hwrite
    cases flag with
    | false =>
      refine .call (hquiet (by simp [writes])) (by cases w <;> rfl) ?_
      rw [hc, hpc]
      cases w with
      | out => exact fun hd => (nomatch hd)
      | err => exact fun _ => rfl
    | true =>
      cases w with
      | out => exact .write (hwrite rfl) rfl (by rw [hc, hpc]; rfl) rfl
      | err => exact .call (hquiet (by simp [writes])) rfl (fun _ => by rw [hc, hpc]; rfl)
  | drainErr hpc =>
    rw [hpc] at hquiet
    refine .call (hquiet (by simp [writes])) (by cases w <;> rfl) ?_
    rw [hc, hpc]
    cases w with
    | out => exact fun hd => (nomatch hd)
    | err => exact fun _ => rfl
  | @writeErr flag hpc =>
    rw [hpc] at hquiet hwrite
    cases flag with
    | false =>
      exact .call (hquiet (by simp [writes])) (by cases w <;> rfl) (by cases w <;> exact fun hd => (nomatch hd))
    | true =>
      cases w with
      | out => exact .call (hquiet (by simp [writes])) rfl (fun hd => (nomatch hd))
      | err => exact .write (hwrite rfl) rfl (by rw [hc, hpc]; rfl) rfl
  | sleep hpc =>
    rw [hpc] at hquiet
    exact .call (hquiet (by simp [writes])) (by cases w <;> rfl) (by cases w <;> exact fun hd => (nomatch hd))

/-- The checks. -/
theorem check_move {s s' : St} {ok : Bool} (hc : s.check ≠ .ready) (hs : threadStep s ok = some s') (w : Which) :
    Move s w (.thread ok) s' ∧ s'.base = s.base := by
  unfold threadStep at hs
  cases hcheck : s.check with
  | ready => exact absurd hcheck hc
  | stat w' =>
    rw [hcheck] at hs
    cases hs
    refine ⟨?_, rfl⟩
    by_cases hw : w = w'
    · subst hw
      cases hn : (s.disk w).name.isNone with
      | false => exact .found hcheck hn rfl rfl
      | true =>
        refine .call rfl rfl ?_
        simp only [if_true]
        cases w <;> exact fun hd => (nomatch hd)
    · refine .call rfl rfl ?_
      rw [hcheck]
      cases w with
      | out =>
        cases w' with
        | out => exact absurd rfl hw
        | err => exact fun _ => rfl
      | err =>
        cases w' with
        | out =>
          simp only
          split <;> exact fun hd => (nomatch hd)
        | err => exact absurd rfl hw
  | reopen w' =>
    rw [hcheck] at hs
    cases hs
    refine ⟨?_, rfl⟩
    by_cases hw : w = w'
    · subst hw
      exact .reopen hcheck (Function.update_self _ _ _) rfl
    · refine .call (Function.update_of_ne hw _ _) rfl ?_
      rw [hcheck]
      cases w with
      | out =>
        cases w' with
        | out => exact absurd rfl hw
        | err => exact fun _ => rfl
      | err =>
        cases w' with
        | out => exact fun hd => (nomatch hd)
        | err => exact absurd rfl hw

theorem step_move {s s' : St} {l : Label} (hs : step s l = some s') (w : Which) : Move s w l s' := by
  unfold step at hs
  split at hs
  · cases hs
  · rename_i l hl
    obtain ⟨base, hb, rfl⟩ := Option.map_eq_some_iff.1 hs
    obtain ⟨hall, hdue⟩ := call_frame hl hb w
    exact .call rfl hall (fun hd => hdue s.check ▸ hd)
  · rename_i ok
    cases hc : s.check with
    | ready =>
      unfold threadStep at hs
      rw [hc] at hs
      obtain ⟨base, hb, rfl⟩ := Option.map_eq_some_iff.1 hs
      exact ready_move hc hb ok w
    | stat w' => exact (check_move (by simp [hc]) hs w).1
    | reopen w' => exact (check_move (by simp [hc]) hs w).1
  · rename_i w'
    split at hs
    · cases hs
      by_cases hw : w = w'
      · subst hw
        exact .remove (Function.update_self _ _ _) rfl
      · exact .call (Function.update_of_ne hw _ _) rfl (fun hd => hd)
    · cases hs
  · rename_i w'
    split at hs
    · rename_i hn
      cases hs
      by_cases hw : w = w'
      · subst hw
        exact .create (Option.isNone_iff_eq_none.1 hn) (Function.update_self _ _ _) rfl
      · exact .call (Function.update_of_ne hw _ _) rfl (fun hd => hd)
    · cases hs

/-- A step is one of `LogThread`, or nothing at all to it. -/
theorem step_base {s s' : St} {l : Label} (hs : step s l = some s') :
    s'.base = s.base ∨ ∃ l', LogThread.step s.base l' = some s'.base := by
  unfold step at hs
  split at hs
  · cases hs
  · rename_i l _
    obtain ⟨base, hb, rfl⟩ := Option.map_eq_some_iff.1 hs
    exact .inr ⟨l, hb⟩
  · cases hc : s.check with
    | ready =>
      unfold threadStep at hs
      rw [hc] at hs
      obtain ⟨base, hb, rfl⟩ := Option.map_eq_some_iff.1 hs
      exact .inr ⟨.thread, hb⟩
    | stat w => exact .inl (check_move (by simp [hc]) hs .out).2
    | reopen w => exact .inl (check_move (by simp [hc]) hs .out).2
  · split at hs
    · cases hs
      exact .inl rfl
    · cases hs
  · split at hs
    · cases hs
      exact .inl rfl
    · cases hs

/-- The thread comes to an `open` by a `stat` that found nothing. -/
theorem reopen_from {s s' : St} {l : Label} {w : Which} (hs : step s l = some s') (hc : s'.check = .reopen w) :
    (s.check = .reopen w ∧ ∀ ok, l ≠ .thread ok) ∨ (s.check = .stat w ∧ (s.disk w).name = none) := by
  unfold step at hs
  split at hs
  · cases hs
  · obtain ⟨base, hb, rfl⟩ := Option.map_eq_some_iff.1 hs
    exact .inl ⟨hc, by simp⟩
  · unfold threadStep at hs
    split at hs
    · rename_i w' hcheck
      cases hs
      simp only at hc
      split at hc
      · rename_i hn
        cases hc
        exact .inr ⟨hcheck, Option.isNone_iff_eq_none.1 hn⟩
      · cases w' <;> cases hc
    · rename_i w' hcheck
      cases hs
      cases w' <;> cases hc
    · obtain ⟨base, hb, rfl⟩ := Option.map_eq_some_iff.1 hs
      simp only at hc
      split at hc <;> cases hc
  · split at hs
    · cases hs
      exact .inl ⟨hc, by simp⟩
    · cases hs
  · split at hs
    · cases hs
      exact .inl ⟨hc, by simp⟩
    · cases hs

/-! ## Every line, whatever happens to the files -/

theorem sound_step {s s' : St} {l : Label} {w : Which} (h : Sound (s.disk w) (written w s.base))
    (hs : step s l = some s') : Sound (s'.disk w) (written w s'.base) := by
  cases step_move hs w with
  | call hdisk hall => rw [hdisk, hall]; exact h
  | found _ _ hdisk hall => rw [hdisk, hall]; exact h
  | reopen _ hdisk hall => rw [hdisk, hall]; exact h.reopen _
  | write hdisk hall => rw [hdisk, hall]; exact h.write _
  | remove hdisk hall => rw [hdisk, hall]; exact h.remove
  | create _ hdisk hall => rw [hdisk, hall]; exact h.create

theorem reachable_sound {s : St} (h : Lts.Reachable step init s) (w : Which) : Sound (s.disk w) (written w s.base) := by
  refine h.invariant (I := fun s => Sound (s.disk w) (written w s.base)) ?_ (fun _ _ _ hi hs => sound_step hi hs)
  cases w <;> exact sound_fresh

/-- The checks are invisible to `LogThread`. -/
theorem reachable_base {s : St} (h : Lts.Reachable step init s) : Lts.Reachable LogThread.step LogThread.init s.base := by
  have hstart : Lts.Reachable LogThread.step LogThread.init (init : St).base := .start
  refine h.invariant (I := fun s => Lts.Reachable LogThread.step LogThread.init s.base) hstart ?_
  intro s l s' hi hs
  rcases step_base hs with he | ⟨l', hl'⟩
  · rw [he]
    exact hi
  · exact .next hi trivial hl'

/-- What has been written is the front of what has been logged. -/
theorem written_front {b : LogThread.St} (h : LogThread.Books b) (w : Which) :
    (written w b).flatten <+: logged w b ∧ (logged w b).Nodup := by
  cases w with
  | out =>
    refine ⟨?_, List.Nodup.of_map _ h.outSerial.1⟩
    rw [logged, h.out, List.append_assoc]
    exact List.prefix_append _ _
  | err =>
    refine ⟨?_, List.Nodup.of_map _ h.errSerial.1⟩
    rw [logged, h.err, List.append_assoc]
    exact List.prefix_append _ _

/-- **Removing and replacing the files under the thread neither reorders nor repeats a line.**  In every reachable state
the files a name has had, read one after the other, hold lines logged for it, in the order they were logged and none
twice; and while every `open` has succeeded they hold the first of them, with none left out. -/
theorem log_files_in_order (s : St) (h : Lts.Reachable step init s) (w : Which) :
    (s.disk w).texts.flatten.Sublist (logged w s.base) ∧ (s.disk w).texts.flatten.Nodup ∧
    ((s.disk w).failed = 0 → (s.disk w).texts.flatten <+: logged w s.base) := by
  have hsound := reachable_sound h w
  have hbooks : LogThread.Books s.base :=
    (reachable_base h).invariant LogThread.books_init (fun _ _ _ hi hs => LogThread.books_step hi hs)
  obtain ⟨hpre, hnd⟩ := written_front hbooks w
  have hsub : (s.disk w).texts.flatten.Sublist (logged w s.base) := hsound.kept.flatten.trans hpre.sublist
  refine ⟨hsub, hnd.sublist hsub, fun hf => ?_⟩
  rw [hsound.whole hf]
  exact hpre

/-- Two lines, the file renamed away between their iterations. -/
def rotated : List Label :=
  [.call .start, .call (.log .info [65])] ++ List.replicate 8 (.thread true) ++
    [.remove .out, .call (.log .info [66])] ++ List.replicate 6 (.thread true)

theorem log_files_in_order_rotated : ∃ s : St, Lts.run step init rotated = some s ∧ (s.disk .out).made = 2 ∧
    (s.disk .out).texts.flatten.map Msg.text = [[65], [66]] ∧ (s.disk .out).texts.flatten <+: s.base.loggedOut := by
  have hsome : (Lts.run step init rotated).isSome = true := by decide
  obtain ⟨s, hs⟩ := Option.isSome_iff_exists.1 hsome
  have hlook : (Lts.run step init rotated).map (fun s => ((s.disk .out).made, (s.disk .out).failed,
      (s.disk .out).texts.flatten.map Msg.text)) = some (2, 0, [[65], [66]]) := by decide
  rw [hs, Option.map_some, Option.some.injEq, Prod.mk.injEq, Prod.mk.injEq] at hlook
  have hall := log_files_in_order s (Lts.Reachable.of_run hs) .out
  exact ⟨s, hs, hlook.1, hlook.2.2, hall.2.2 hlook.2.1⟩

/-! ## What a removal costs -/

/-- Nobody but the thread makes a file. -/
def OnlyRemoved (_ : St) : Label → Prop
  | .create _ => False
  | _ => True

instance (s : St) : ∀ l : Label, Decidable (OnlyRemoved s l)
  | .call _ => .isTrue trivial
  | .thread _ => .isTrue trivial
  | .remove _ => .isTrue trivial
  | .create _ => .isFalse id

/-- The books of one name, and nothing under the name when the thread is about to open it. -/
structure Priced (s : St) (w : Which) : Prop where
  paid : Paid (s.disk w) (due w s.check s.base.pc)
  gone : s.check = .reopen w → (s.disk w).name = none

theorem priced_step {s s' : St} {l : Label} {w : Which} (h : Priced s w) (hok : OnlyRemoved s l)
    (hs : step s l = some s') : Priced s' w := by
  have hgone : s'.check = .reopen w → (s.disk w).name = none := fun hc =>
    (reopen_from hs hc).elim (fun hr => h.gone hr.1) (fun hst => hst.2)
  cases step_move hs w with
  | call hdisk hall hdue =>
    rw [← hdisk] at hgone
    exact ⟨hdisk ▸ h.paid.mono hdue, hgone⟩
  | found hc hn hdisk hall =>
    rw [← hdisk] at hgone
    exact ⟨hdisk ▸ h.paid.found hn _, hgone⟩
  | @reopen _ ok hc hdisk hall =>
    refine ⟨hdisk ▸ h.paid.reopen (h.gone hc) ok _, fun hc' => ?_⟩
    rcases reopen_from hs hc' with ⟨-, hno⟩ | ⟨hst, -⟩
    · exact absurd rfl (hno ok)
    · rw [hc] at hst
      cases hst
  | write hdisk hall hdue hdue' =>
    have hname : (s'.disk w).name = (s.disk w).name := by
      rw [hdisk]
      unfold Disk.write
      cases (s.disk w).handle <;> rfl
    rw [← hname] at hgone
    refine ⟨?_, hgone⟩
    rw [hdisk, hdue']
    exact (hdue ▸ h.paid).write _
  | remove hdisk hall => exact ⟨hdisk ▸ h.paid.remove _, fun _ => hdisk ▸ rfl⟩
  | create => exact absurd hok id

/-- A line is logged and drained, the file is removed, and the batch is written to what is no longer there. -/
def removedInTime : List Label :=
  [.call .start, .call (.log .info [65]), .thread true, .thread true, .thread true, .thread true, .remove .out, .thread true]

/-- The name stands for file `k`, and the thread neither has it open nor is about to open anything. -/
structure Replaced (s : St) (w : Which) (k : Nat) (stream : Option Nat) (text : List (List Msg)) : Prop where
  name : (s.disk w).name = some k
  handle : (s.disk w).handle = stream
  other : stream ≠ some k
  text : (s.disk w).text k = text
  check : s.check ≠ .reopen w

theorem write_other {T : Type} {d : Disk T} {k : Nat} (hk : d.handle ≠ some k) (x : T) :
    (d.write x).name = d.name ∧ (d.write x).handle = d.handle ∧ (d.write x).text k = d.text k := by
  unfold Disk.write
  cases hh : d.handle with
  | none => exact ⟨rfl, rfl, rfl⟩
  | some j =>
    have hkj : k ≠ j := by
      rintro rfl
      exact hk hh
    exact ⟨rfl, rfl, Function.update_of_ne hkj _ _⟩

theorem replaced_step {s s' : St} {l : Label} {w : Which} {k : Nat} {stream : Option Nat} {text : List (List Msg)}
    (h : Replaced s w k stream text) (hl : l ≠ .remove w) (hs : step s l = some s') : Replaced s' w k stream text := by
  have hcheck : s'.check ≠ .reopen w := by
    intro hc
    rcases reopen_from hs hc with ⟨hr, -⟩ | ⟨-, hn⟩
    · exact h.check hr
    · rw [h.name] at hn
      cases hn
  have hsame : s'.disk w = s.disk w → Replaced s' w k stream text := fun hd =>
    ⟨hd ▸ h.name, hd ▸ h.handle, h.other, hd ▸ h.text, hcheck⟩
  cases step_move hs w with
  | call hdisk => exact hsame hdisk
  | found _ _ hdisk => exact hsame hdisk
  | reopen hc => exact absurd hc h.check
  | write hdisk =>
    obtain ⟨hn, hh, ht⟩ := write_other (h.handle ▸ h.other) s.base.ss
    exact ⟨hdisk ▸ hn.trans h.name, hdisk ▸ hh.trans h.handle, h.other, hdisk ▸ ht.trans h.text, hcheck⟩
  | remove => exact absurd rfl hl
  | create hn =>
    rw [h.name] at hn
    cases hn

theorem replaced_run : ∀ (ls : List Label) {s s' : St} {w : Which} {k : Nat} {stream : Option Nat} {text : List (List Msg)},
    Replaced s w k stream text → (∀ l ∈ ls, l ≠ .remove w) → Lts.run step s ls = some s' → Replaced s' w k stream text
  | [], _, _, _, _, _, _, h, _, hr => by
    simp only [Lts.run, Option.some.injEq] at hr
    exact hr ▸ h
  | l :: ls, _, _, _, _, _, _, h, hkeep, hr => by
    obtain ⟨s₁, hs, hr⟩ := Option.bind_eq_some_iff.1 hr
    exact replaced_run ls (replaced_step h (hkeep l List.mem_cons_self) hs)
      (fun l' hl' => hkeep l' (List.mem_cons_of_mem _ hl')) hr

/-- The log file is moved away and a new one put in its place between two checks. -/
def replacedAtTest : List Label := [.call .start, .remove .out, .create .out]

/-- A line, and an iteration that writes it. -/
def oneIteration : List Label := .call (.log .info [65]) :: List.replicate 7 (.thread true)

end LogFiles
end Xrtc
