import Xrtc.Glog
/-!
# GlogFiles — what the log files hold

A log file and its predecessors hold the lines handed to them, whole and in order (`Records`), whatever was flushed or
rotated between them.  A file that exists has the files of the lower severities beside it (`Filed`), which is why
`createFiles` may stop at the first one it finds.
-/
namespace Xrtc
namespace Glog

/-- The files of a severity as headers and lines, oldest first: together they have exactly `lines`, in order, and a file
has reached `maxSize` only with its first line. -/
def Records (maxSize : Nat) (sb : SyncBuffer) (lines : List GoString) : Prop :=
  ∃ parts : List (GoString × List GoString),
    sb.closed ++ [sb.file ++ sb.buf] = parts.map (fun f => f.1 ++ f.2.flatten) ∧ parts.flatMap Prod.snd = lines ∧
      (∀ f ∈ parts, (f.1 ++ f.2.flatten).length < maxSize ∨ f.2.length ≤ 1) ∧ sb.nbytes = (sb.file ++ sb.buf).length

/-- The lines a severity's file is given. -/
def linesFor (s : Severity) (filed : List (Severity × GoString)) : List GoString :=
  (filed.filter (fun c => s ∈ targets c.1)).map Prod.snd

def Stands (maxSize : Nat) (fs : Files) (filed : List (Severity × GoString)) (s : Severity) : Prop :=
  match fs s with
  | none => linesFor s filed = []
  | some sb => Records maxSize sb (linesFor s filed)

structure Filed (maxSize : Nat) (fs : Files) (filed : List (Severity × GoString)) : Prop where
  info : Stands maxSize fs filed .infoLog
  warning : Stands maxSize fs filed .warningLog
  debug : fs .debugLog = none
  closed : ∀ s, (fs s).isSome → ∀ s' ∈ descending s, (fs s').isSome

section Files
variable {maxSize : Nat} {fs fs' : Files} {filed : List (Severity × GoString)} {sb sb' : SyncBuffer}
  {lines : List GoString} {env : Env}

theorem records_create (header : GoString) : Records maxSize (.create header) [] := by
  refine ⟨[(header, [])], by simp [SyncBuffer.create], rfl, ?_, by simp [SyncBuffer.create]⟩
  intro f hf
  rw [List.mem_singleton.1 hf]
  exact .inr (Nat.zero_le _)

theorem records_flush (h : Records maxSize sb lines) : Records maxSize sb.flush lines := by
  obtain ⟨parts, hparts, hlines, hsize, hn⟩ := h
  refine ⟨parts, ?_, hlines, hsize, ?_⟩
  · simpa [SyncBuffer.flush] using hparts
  · simpa [SyncBuffer.flush] using hn

/-- What the writer has taken is on disk or in its buffer. -/
theorem bufWrite_out (sb : SyncBuffer) (p : GoString) :
    (sb.bufWrite p).closed = sb.closed ∧ (sb.bufWrite p).file ++ (sb.bufWrite p).buf = sb.file ++ sb.buf ++ p := by
  unfold SyncBuffer.bufWrite
  split
  · exact ⟨rfl, (List.append_assoc _ _ _).symm⟩
  · split
    · rename_i hbuf
      refine ⟨rfl, ?_⟩
      simp only [hbuf, List.append_nil]
    · dsimp only
      split
      · refine ⟨rfl, ?_⟩
        simp only [List.append_assoc, List.take_append_drop]
      · refine ⟨rfl, ?_⟩
        simp only [List.append_assoc, List.append_nil, List.take_append_drop]

theorem append_out (sb : SyncBuffer) (p : GoString) :
    (sb.append p).closed = sb.closed ∧ (sb.append p).file ++ (sb.append p).buf = sb.file ++ sb.buf ++ p ∧
      (sb.append p).nbytes = sb.nbytes + p.length :=
  ⟨(bufWrite_out sb p).1, (bufWrite_out sb p).2, rfl⟩

/-- A line that fits goes behind the last one. -/
theorem records_append (h : Records maxSize sb lines) {p : GoString} (hfit : sb.nbytes + p.length < maxSize) :
    Records maxSize (sb.append p) (lines ++ [p]) := by
  obtain ⟨parts, hparts, hlines, hsize, hn⟩ := h
  obtain ⟨hclosed, hout, hbytes⟩ := append_out sb p
  obtain ⟨front, last, hsplit, hfront, hlast⟩ := List.map_eq_append_iff.1 hparts.symm
  obtain ⟨f, hf, hcur⟩ := List.map_eq_singleton_iff.1 hlast
  subst hf
  have hflat : (f.2 ++ [p]).flatten = f.2.flatten ++ p := by simp
  refine ⟨front ++ [(f.1, f.2 ++ [p])], ?_, ?_, ?_, ?_⟩
  · rw [hclosed, hout, List.map_append, hfront, ← hcur]
    simp [List.append_assoc]
  · rw [← hlines, hsplit]
    simp [List.flatMap_append]
  · intro x hx
    rcases List.mem_append.1 hx with hx | hx
    · exact hsize x (hsplit ▸ List.mem_append_left _ hx)
    · rw [List.mem_singleton.1 hx]
      refine .inl ?_
      rw [hflat, ← List.append_assoc, hcur, List.length_append, ← hn]
      exact hfit
  · rw [hbytes, hout, hn]
    exact List.length_append.symm

/-- Rotation closes the file with all its lines and starts the next one with this line. -/
theorem records_rotate (h : Records maxSize sb lines) (header p : GoString) :
    Records maxSize ((sb.rotateFile header).append p) (lines ++ [p]) := by
  obtain ⟨parts, hparts, hlines, hsize, hn⟩ := h
  obtain ⟨hclosed, hout, hbytes⟩ := append_out (sb.rotateFile header) p
  refine ⟨parts ++ [(header, [p])], ?_, ?_, ?_, ?_⟩
  · rw [hclosed, hout, List.map_append, ← hparts]
    simp [SyncBuffer.rotateFile, SyncBuffer.flush]
  · rw [← hlines]
    simp [List.flatMap_append]
  · intro x hx
    rcases List.mem_append.1 hx with hx | hx
    · exact hsize x hx
    · rw [List.mem_singleton.1 hx]
      exact .inr (Nat.le_refl _)
  · rw [hbytes, hout]
    simp [SyncBuffer.rotateFile]

/-- **`syncBuffer.Write` records one more line**, whole, in this file or in the next. -/
theorem records_write (h : Records maxSize sb lines) {p : GoString} {rotated : Option GoString}
    (hw : sb.write maxSize rotated p = some sb') : Records maxSize sb' (lines ++ [p]) := by
  unfold SyncBuffer.write at hw
  split at hw
  · obtain ⟨header, -, rfl⟩ := Option.map_eq_some_iff.1 hw
    exact records_rotate h header p
  · rename_i hfit
    cases hw
    exact records_append h (Nat.lt_of_not_le hfit)

theorem linesFor_append (s sev : Severity) (line : GoString) :
    linesFor s (filed ++ [(sev, line)]) = linesFor s filed ++ if s ∈ targets sev then [line] else [] := by
  unfold linesFor
  rw [List.filter_append, List.map_append]
  by_cases hs : s ∈ targets sev <;> simp [hs]

/-- `createFiles` makes missing files and leaves the others. -/
theorem createFiles_spec (env : Env) : ∀ (ss : List Severity) (fs : Files) (x : Severity),
    (createFiles env ss fs).2 x = fs x ∨
      (x ∈ ss ∧ fs x = none ∧ ∃ header, (createFiles env ss fs).2 x = some (.create header))
  | [], fs, x => .inl rfl
  | s :: rest, fs, x => by
    unfold createFiles
    split
    · exact .inl rfl
    · rename_i hs
      split
      · exact .inl rfl
      · rename_i header hheader
        have hnone : fs s = none := by simpa using hs
        rcases createFiles_spec env rest (Function.update fs s (some (.create header))) x with heq | ⟨hx, hn, h⟩
        · by_cases hxs : x = s
          · subst hxs
            rw [Function.update_self] at heq
            exact .inr ⟨List.mem_cons_self, hnone, header, heq⟩
          · rw [Function.update_of_ne hxs] at heq
            exact .inl heq
        · by_cases hxs : x = s
          · subst hxs
            rw [Function.update_self] at hn
            cases hn
          · rw [Function.update_of_ne hxs] at hn
            exact .inr ⟨List.mem_cons_of_mem _ hx, hn, h⟩

theorem stands_createFiles {ss : List Severity} {s : Severity} (h : Stands maxSize fs filed s) :
    Stands maxSize (createFiles env ss fs).2 filed s := by
  unfold Stands at h ⊢
  rcases createFiles_spec env ss fs s with heq | ⟨-, hnone, header, heq⟩
  · rwa [heq]
  · rw [hnone] at h
    rw [heq]
    dsimp only at h ⊢
    rw [h]
    exact records_create header

theorem stands_flushAll {s : Severity} (h : Stands maxSize fs filed s) : Stands maxSize (flushAll fs) filed s := by
  unfold Stands flushAll at *
  cases hfs : fs s with
  | none => simpa [hfs] using h
  | some sb =>
    rw [hfs] at h
    exact records_flush h

/-- A line written to its targets: each had a file, and has one more line now. -/
theorem writeFiles_all {data : GoString} : ∀ {ts : List Severity} {fs fs' : Files}, ts.Nodup →
    writeFiles maxSize env data ts fs = .all fs' →
    (∀ x, x ∉ ts → fs' x = fs x) ∧
      ∀ x ∈ ts, ∃ sb sb', fs x = some sb ∧ sb.write maxSize (env.rotated x) data = some sb' ∧ fs' x = some sb'
  | [], fs, fs', _, h => by
    cases h
    exact ⟨fun _ _ => rfl, List.forall_mem_nil _⟩
  | s :: rest, fs, fs', hnd, h => by
    obtain ⟨hs, hnd⟩ := List.nodup_cons.1 hnd
    unfold writeFiles at h
    cases hfs : fs s with
    | none =>
      rw [hfs] at h
      cases h
    | some sb =>
      simp only [hfs] at h
      cases hw : sb.write maxSize (env.rotated s) data with
      | none =>
        rw [hw] at h
        cases h
      | some sb' =>
        simp only [hw] at h
        obtain ⟨hout, hin⟩ := writeFiles_all hnd h
        refine ⟨fun x hx => ?_, fun x hx => ?_⟩
        · rw [hout x (fun hm => hx (List.mem_cons_of_mem _ hm)), Function.update_of_ne]
          exact fun he => hx (he ▸ List.mem_cons_self)
        · rcases List.mem_cons.1 hx with rfl | hx
          · exact ⟨sb, sb', hfs, hw, by rw [hout x hs, Function.update_self]⟩
          · have hne : x ≠ s := fun he => hs (he ▸ hx)
            obtain ⟨sb₁, sb₂, h1, h2, h3⟩ := hin x hx
            rw [Function.update_of_ne hne] at h1
            exact ⟨sb₁, sb₂, h1, h2, h3⟩

/-- Writing stops with a panic only at a file that is not there. -/
theorem writeFiles_panicked {data : GoString} : ∀ {ts : List Severity} {fs fs' : Files}, ts.Nodup →
    writeFiles maxSize env data ts fs = .panicked fs' → ∃ x ∈ ts, fs x = none
  | [], fs, fs', _, h => by cases h
  | s :: rest, fs, fs', hnd, h => by
    obtain ⟨hs, hnd⟩ := List.nodup_cons.1 hnd
    unfold writeFiles at h
    cases hfs : fs s with
    | none => exact ⟨s, List.mem_cons_self, hfs⟩
    | some sb =>
      simp only [hfs] at h
      cases hw : sb.write maxSize (env.rotated s) data with
      | none =>
        rw [hw] at h
        cases h
      | some sb' =>
        simp only [hw] at h
        obtain ⟨x, hx, hnone⟩ := writeFiles_panicked hnd h
        have hne : x ≠ s := fun he => hs (he ▸ hx)
        rw [Function.update_of_ne hne] at hnone
        exact ⟨x, List.mem_cons_of_mem _ hx, hnone⟩

theorem nodup_targets (s : Severity) : (targets s).Nodup := by cases s <;> decide

theorem targets_subset {s : Severity} (hs : s ≠ .debugLog) : ∀ x ∈ targets s, x ∈ descending s := by
  cases s <;> first | exact absurd rfl hs | decide

theorem stands_write {data : GoString} {sev s : Severity} (h : Stands maxSize fs filed s)
    (hw : writeFiles maxSize env data (targets sev) fs = .all fs') :
    Stands maxSize fs' (filed ++ [(sev, data)]) s := by
  obtain ⟨hout, hin⟩ := writeFiles_all (nodup_targets sev) hw
  unfold Stands at h ⊢
  rw [linesFor_append]
  by_cases hs : s ∈ targets sev
  · obtain ⟨sb, sb', h1, h2, h3⟩ := hin s hs
    rw [h1] at h
    rw [h3, if_pos hs]
    exact records_write h h2
  · rw [hout s hs, if_neg hs, List.append_nil]
    exact h

/-- The files `output` writes to, after `createFiles`. -/
def ensured (env : Env) (s : Severity) (fs : Files) : Bool × Files :=
  if (fs s).isSome then (true, fs) else createFiles env (descending s) fs

/-- Where files below an existing one exist, a successful `createFiles` leaves no file missing. -/
theorem createFiles_all : ∀ (ss : List Severity) (fs : Files), ss.Nodup →
    (∀ s rest, s :: rest <:+ ss → (fs s).isSome → ∀ x ∈ rest, (fs x).isSome) → (createFiles env ss fs).1 = true →
    ∀ x ∈ ss, ((createFiles env ss fs).2 x).isSome
  | [], fs, _, _, _ => List.forall_mem_nil _
  | s :: rest, fs, hnd, hbelow, hok => by
    obtain ⟨hs, hnd⟩ := List.nodup_cons.1 hnd
    unfold createFiles at hok ⊢
    by_cases hsome : (fs s).isSome = true
    · rw [if_pos hsome]
      exact List.forall_mem_cons.2 ⟨hsome, hbelow s rest (List.suffix_refl _) hsome⟩
    · rw [if_neg hsome] at hok ⊢
      cases hheader : env.created s with
      | none =>
        rw [hheader] at hok
        cases hok
      | some header =>
        simp only [hheader] at hok ⊢
        have hkeep : ∀ x, (fs x).isSome → (Function.update fs s (some (SyncBuffer.create header)) x).isSome := by
          intro x hx
          rw [Function.update_apply]
          split
          · rfl
          · exact hx
        have hrest := createFiles_all rest (Function.update fs s (some (.create header))) hnd (fun s' rest' hsuf h' x hx => by
          have hne : s' ≠ s := fun he => hs (hsuf.subset (he ▸ List.mem_cons_self))
          rw [Function.update_of_ne hne] at h'
          exact hkeep x (hbelow s' rest' (hsuf.trans (List.suffix_cons s rest)) h' x hx)) hok
        refine List.forall_mem_cons.2 ⟨?_, hrest⟩
        rcases createFiles_spec env rest (Function.update fs s (some (.create header))) s with heq | ⟨hmem, -, -⟩
        · rw [heq, Function.update_self]
          rfl
        · exact absurd hmem hs

theorem nodup_descending (s : Severity) : (descending s).Nodup := by cases s <;> decide

theorem descending_suffix {s s' : Severity} {rest : List Severity} (h : s' :: rest <:+ descending s) :
    ∀ x ∈ rest, x ∈ descending s' := by
  cases s <;> simp only [descending, List.suffix_cons_iff, List.suffix_nil, List.cons.injEq, reduceCtorEq, or_false] at h
  · obtain ⟨rfl, rfl⟩ := h
    decide
  · rcases h with ⟨rfl, rfl⟩ | ⟨rfl, rfl⟩ <;> decide
  · rcases h with ⟨rfl, rfl⟩ | ⟨rfl, rfl⟩ | ⟨rfl, rfl⟩ <;> decide
  · rcases h with ⟨rfl, rfl⟩ | ⟨rfl, rfl⟩ | ⟨rfl, rfl⟩ | ⟨rfl, rfl⟩ <;> decide

theorem createFiles_descending (hclosed : ∀ s, (fs s).isSome → ∀ s' ∈ descending s, (fs s').isSome) (s : Severity)
    (hok : (createFiles env (descending s) fs).1 = true) :
    ∀ x ∈ descending s, ((createFiles env (descending s) fs).2 x).isSome :=
  createFiles_all (descending s) fs (nodup_descending s)
    (fun s' _ hsuf h' x hx => hclosed s' h' x (descending_suffix hsuf x hx)) hok

/-- A file below one of `descending s` is one of `descending s`. -/
theorem descending_trans {s x x' : Severity} (hx : x ∈ descending s) (hx' : x' ∈ descending x) : x' ∈ descending s := by
  revert hx hx'
  cases s <;> cases x <;> cases x' <;> decide

theorem Filed.ensured (h : Filed maxSize fs filed) (env : Env) (s : Severity) (hok : (ensured env s fs).1 = true) :
    Filed maxSize (Glog.ensured env s fs).2 filed ∧ ∀ x ∈ descending s, ((Glog.ensured env s fs).2 x).isSome := by
  unfold Glog.ensured at hok ⊢
  by_cases hs : (fs s).isSome = true
  · rw [if_pos hs]
    exact ⟨h, h.closed s hs⟩
  · rw [if_neg hs] at hok ⊢
    have hall := createFiles_descending h.closed s hok
    refine ⟨⟨stands_createFiles h.info, stands_createFiles h.warning, ?_, ?_⟩, hall⟩
    · rcases createFiles_spec env (descending s) fs .debugLog with heq | ⟨hmem, -, -⟩
      · rw [heq]
        exact h.debug
      · cases s <;> simp [descending] at hmem
    · intro x hx x' hx'
      have hkeep : ∀ y, (fs y).isSome → ((createFiles env (descending s) fs).2 y).isSome := by
        intro y hy
        rcases createFiles_spec env (descending s) fs y with heq | ⟨-, -, header, heq⟩
        · rw [heq]
          exact hy
        · rw [heq]
          rfl
      rcases createFiles_spec env (descending s) fs x with heq | ⟨hmem, -, -⟩
      · rw [heq] at hx
        exact hkeep x' (h.closed x hx x' hx')
      · exact hall x' (descending_trans hmem hx')

end Files

end Glog
end Xrtc
