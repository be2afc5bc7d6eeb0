import Xrtc.GlogFiles
/-!
# GlogRun — what holds of every run of the logger

The free list is a chain of buffers that no goroutine holds, and no two goroutines hold one buffer (`Owned`); so what a
call has written is what its buffer holds, and what reaches the files are whole lines.
-/
namespace Xrtc
namespace Glog

/-! ## Buffers -/

/-- The free list from `h` is `l`. -/
def Chain (buffers : Nat → Buffer) : Option Nat → List Nat → Prop
  | h, [] => h = none
  | h, b :: l => h = some b ∧ Chain buffers (buffers b).next l

def Pc.buffer : Pc → Option Nat
  | .taken _ b => some b
  | .header _ b => some b
  | .format _ b _ => some b
  | _ => none

/-- What a goroutine's buffer holds is what its call has written. -/
def Pc.Reads (buffers : Nat → Buffer) : Pc → Prop
  | .header _ b => (buffers b).bytes = []
  | .format _ b text => (buffers b).bytes = text
  | _ => True

structure Owned (st : St) (l : List Nat) : Prop where
  chain : Chain st.buffers st.freeList l
  nodup : l.Nodup
  made : ∀ b ∈ l, b < st.made
  held : ∀ g b, (st.goroutines g).buffer = some b → b < st.made ∧ b ∉ l
  alone : ∀ g g' b, (st.goroutines g).buffer = some b → (st.goroutines g').buffer = some b → g = g'
  reads : ∀ g, (st.goroutines g).Reads st.buffers

section Buffers
variable {buffers buffers' : Nat → Buffer} {st st' : St} {l : List Nat}

theorem chain_congr : ∀ {l : List Nat} {h : Option Nat}, (∀ b ∈ l, (buffers' b).next = (buffers b).next) →
    Chain buffers h l → Chain buffers' h l
  | [], _, _, hc => hc
  | b :: l, _, heq, hc => by
    refine ⟨hc.1, ?_⟩
    rw [heq b List.mem_cons_self]
    exact chain_congr (fun b' hb => heq b' (List.mem_cons_of_mem _ hb)) hc.2

theorem reads_congr {pc : Pc} (h : ∀ b, pc.buffer = some b → (buffers' b).bytes = (buffers b).bytes)
    (hr : pc.Reads buffers) : pc.Reads buffers' := by
  cases pc with
  | header s b => exact (h b rfl).trans hr
  | format s b text => exact (h b rfl).trans hr
  | _ => trivial

/-- The holder of a buffer writes to it and stays its holder. -/
theorem Owned.write (h : Owned st l) {g b : Nat} (pc : Pc) {v : Buffer} (hold : (st.goroutines g).buffer = some b)
    (hpc : pc.buffer = some b) (hbuffers : st'.buffers = Function.update st.buffers b v)
    (hgo : st'.goroutines = Function.update st.goroutines g pc) (hfree : st'.freeList = st.freeList)
    (hmade : st'.made = st.made) (hreads : pc.Reads st'.buffers) : Owned st' l := by
  have hsame : ∀ g', (st'.goroutines g').buffer = (st.goroutines g').buffer := by
    intro g'
    rw [hgo, Function.update_apply]
    split
    · rename_i he
      rw [he, hpc, hold]
    · rfl
  obtain ⟨hlt, hout⟩ := h.held g b hold
  refine ⟨?_, h.nodup, ?_, ?_, ?_, fun g' => ?_⟩
  · rw [hfree]
    refine chain_congr (fun b' hb => ?_) h.chain
    rw [hbuffers, Function.update_of_ne (fun he => hout (by rwa [← he]))]
  · rw [hmade]
    exact h.made
  · intro g' b' hb
    rw [hmade]
    exact h.held g' b' (hsame g' ▸ hb)
  · intro g₁ g₂ b' h1 h2
    exact h.alone g₁ g₂ b' (hsame g₁ ▸ h1) (hsame g₂ ▸ h2)
  · by_cases hg : g' = g
    · subst hg
      rw [hgo, Function.update_self]
      exact hreads
    · rw [hgo, Function.update_of_ne hg]
      refine reads_congr (fun b' hb => ?_) (h.reads g')
      have hne : b' ≠ b := fun he => hg (h.alone g' g b (he ▸ hb) hold)
      rw [hbuffers, Function.update_of_ne hne]

/-- A step that touches neither buffers nor goroutines. -/
theorem Owned.congr (h : Owned st l) (hbuffers : st'.buffers = st.buffers) (hgo : st'.goroutines = st.goroutines)
    (hfree : st'.freeList = st.freeList) (hmade : st'.made = st.made) : Owned st' l := by
  obtain ⟨h1, h2, h3, h4, h5, h6⟩ := h
  refine ⟨?_, h2, ?_, ?_, ?_, ?_⟩
  · rwa [hbuffers, hfree]
  · rwa [hmade]
  · rwa [hgo, hmade]
  · rwa [hgo]
  · rwa [hgo, hbuffers]

/-- A goroutine lets go of its buffer. -/
theorem Owned.drop (h : Owned st l) (g : Nat) (pc : Pc) (hpc : pc.buffer = none)
    (hbuffers : st'.buffers = st.buffers) (hgo : st'.goroutines = Function.update st.goroutines g pc)
    (hfree : st'.freeList = st.freeList) (hmade : st'.made = st.made) : Owned st' l := by
  have hsome : ∀ g' b, (st'.goroutines g').buffer = some b → (st.goroutines g').buffer = some b := by
    intro g' b hb
    rw [hgo, Function.update_apply] at hb
    split at hb
    · rw [hpc] at hb
      cases hb
    · exact hb
  refine ⟨?_, h.nodup, ?_, ?_, ?_, fun g' => ?_⟩
  · rw [hbuffers, hfree]
    exact h.chain
  · rw [hmade]
    exact h.made
  · intro g' b hb
    rw [hmade]
    exact h.held g' b (hsome g' b hb)
  · intro g₁ g₂ b h1 h2
    exact h.alone g₁ g₂ b (hsome g₁ b h1) (hsome g₂ b h2)
  · rw [hgo, hbuffers, Function.update_apply]
    split
    · cases pc <;> trivial
    · exact h.reads g'

/-- `getBuffer` takes the head of the list, or makes a buffer nobody has. -/
theorem owned_getBuffer (h : Owned st l) {g : Nat} (s : Severity) (hidle : st.goroutines g = .idle) :
    ∃ l', Owned (getBuffer st g s) l' := by
  have hother : ∀ {pc : Pc} {g' b : Nat}, (Function.update st.goroutines g pc g').buffer = some b →
      (g' = g ∧ pc.buffer = some b) ∨ (g' ≠ g ∧ (st.goroutines g').buffer = some b) := by
    intro pc g' b hb
    rw [Function.update_apply] at hb
    split at hb
    · rename_i he
      exact .inl ⟨he, hb⟩
    · rename_i he
      exact .inr ⟨he, hb⟩
  cases hfree : st.freeList with
  | some b =>
    cases l with
    | nil =>
      have hnil := h.chain
      rw [hfree] at hnil
      cases hnil
    | cons b' l =>
      have hc := h.chain
      rw [hfree] at hc
      obtain ⟨hb, hrest⟩ := hc
      cases hb
      have hnd := List.nodup_cons.1 h.nodup
      have heq : getBuffer st g s = setPc { st with freeList := (st.buffers b).next } g (.taken s b) := by
        simp [getBuffer, hfree]
      rw [heq]
      refine ⟨l, hrest, hnd.2, fun x hx => h.made x (List.mem_cons_of_mem _ hx), ?_, ?_, fun g' => ?_⟩
      · intro g' x hx
        rcases hother hx with ⟨-, hx⟩ | ⟨-, hx⟩
        · cases hx
          exact ⟨h.made b List.mem_cons_self, hnd.1⟩
        · have hk := h.held g' x hx
          exact ⟨hk.1, fun hm => hk.2 (List.mem_cons_of_mem _ hm)⟩
      · intro g₁ g₂ x h1 h2
        rcases hother h1 with ⟨e1, x1⟩ | ⟨e1, x1⟩ <;> rcases hother h2 with ⟨e2, x2⟩ | ⟨e2, x2⟩
        · rw [e1, e2]
        · cases x1
          exact absurd List.mem_cons_self (h.held g₂ b x2).2
        · cases x2
          exact absurd List.mem_cons_self (h.held g₁ b x1).2
        · exact h.alone g₁ g₂ x x1 x2
      · show (Function.update st.goroutines g (.taken s b) g').Reads st.buffers
        rw [Function.update_apply]
        split
        · trivial
        · exact h.reads g'
  | none =>
    have heq : getBuffer st g s =
        setPc { st with buffers := Function.update st.buffers st.made .zero, made := st.made + 1 } g (.header s st.made) := by
      simp [getBuffer, hfree]
    rw [heq]
    have hc := h.chain
    rw [hfree] at hc
    have hl : l = [] := by
      cases l with
      | nil => rfl
      | cons b l => cases hc.1
    subst hl
    refine ⟨[], hfree, List.nodup_nil, List.forall_mem_nil _, ?_, ?_, fun g' => ?_⟩
    · intro g' x hx
      refine ⟨?_, List.not_mem_nil⟩
      rcases hother hx with ⟨-, hx⟩ | ⟨-, hx⟩
      · cases hx
        exact Nat.lt_succ_self _
      · exact Nat.lt_succ_of_lt (h.held g' x hx).1
    · intro g₁ g₂ x h1 h2
      rcases hother h1 with ⟨e1, x1⟩ | ⟨e1, x1⟩ <;> rcases hother h2 with ⟨e2, x2⟩ | ⟨e2, x2⟩
      · rw [e1, e2]
      · cases x1
        exact absurd (h.held g₂ _ x2).1 (Nat.lt_irrefl _)
      · cases x2
        exact absurd (h.held g₁ _ x1).1 (Nat.lt_irrefl _)
      · exact h.alone g₁ g₂ x x1 x2
    · show (Function.update st.goroutines g (.header s st.made) g').Reads (Function.update st.buffers st.made .zero)
      by_cases hg : g' = g
      · subst hg
        rw [Function.update_self]
        show (Function.update st.buffers st.made .zero st.made).bytes = []
        rw [Function.update_self]
        rfl
      · rw [Function.update_of_ne hg]
        refine reads_congr (fun b hb => ?_) (h.reads g')
        rw [Function.update_of_ne (Nat.ne_of_lt (h.held g' b hb).1)]

/-- The end of a call gives its buffer back. -/
theorem owned_putBuffer (h : Owned st l) {g b : Nat} (hold : (st.goroutines g).buffer = some b)
    (hbuffers : st'.buffers = (putBuffer st b).buffers) (hfree : st'.freeList = (putBuffer st b).freeList)
    (hmade : st'.made = st.made) (hgo : st'.goroutines = Function.update st.goroutines g .idle) :
    ∃ l', Owned st' l' := by
  by_cases hbig : 256 ≤ (st.buffers b).bytes.length
  · simp only [putBuffer, if_pos hbig] at hbuffers hfree
    exact ⟨l, h.drop g .idle rfl hbuffers hgo hfree hmade⟩
  · simp only [putBuffer, if_neg hbig] at hbuffers hfree
    obtain ⟨hlt, hout⟩ := h.held g b hold
    have hsome : ∀ g' x, (st'.goroutines g').buffer = some x → g' ≠ g ∧ (st.goroutines g').buffer = some x := by
      intro g' x hx
      rw [hgo, Function.update_apply] at hx
      split at hx
      · cases hx
      · rename_i hne
        exact ⟨hne, hx⟩
    refine ⟨b :: l, ⟨hfree, ?_⟩, List.nodup_cons.2 ⟨hout, h.nodup⟩, ?_, ?_, ?_, fun g' => ?_⟩
    · rw [hbuffers, Function.update_self]
      refine chain_congr (fun x hx => ?_) h.chain
      rw [Function.update_of_ne (fun he => hout (by rwa [← he]))]
    · rw [hmade]
      exact List.forall_mem_cons.2 ⟨hlt, h.made⟩
    · intro g' x hx
      obtain ⟨hne, hx⟩ := hsome g' x hx
      have hk := h.held g' x hx
      rw [hmade]
      refine ⟨hk.1, fun hm => ?_⟩
      rcases List.mem_cons.1 hm with rfl | hm
      · exact hne (h.alone g' g x hx hold)
      · exact hk.2 hm
    · intro g₁ g₂ x h1 h2
      exact h.alone g₁ g₂ x (hsome g₁ x h1).2 (hsome g₂ x h2).2
    · by_cases hg : g' = g
      · rw [hgo, hg, Function.update_self]
        trivial
      · rw [hgo, Function.update_of_ne hg]
        refine reads_congr (fun x hx => ?_) (h.reads g')
        have hne : x ≠ b := fun he => hg (h.alone g' g b (he ▸ hx) hold)
        rw [hbuffers, Function.update_of_ne hne]

end Buffers

/-! ## Runs -/

structure Inv (maxSize : Nat) (st : St) : Prop where
  owned : ∃ l, Owned st l
  filed : Filed maxSize st.files st.filed
  hung : st.hung = true → st.files .infoLog = none

section Runs
variable {maxSize : Nat} {st st' : St} {env : Env}

theorem Filed.flushAll {fs : Files} {filed : List (Severity × GoString)} (h : Filed maxSize fs filed) :
    Filed maxSize (flushAll fs) filed := by
  refine ⟨stands_flushAll h.info, stands_flushAll h.warning, ?_, fun s hs s' hs' => ?_⟩
  · rw [Glog.flushAll, h.debug]
    rfl
  · simp only [Glog.flushAll, Option.isSome_map] at hs ⊢
    exact h.closed s hs s' hs'

/-- Every file there is stands on `infoLog`'s. -/
theorem Filed.none_of_info {fs : Files} {filed : List (Severity × GoString)} (h : Filed maxSize fs filed)
    (hinfo : fs .infoLog = none) : (∀ s, fs s = none) ∧ filed = [] := by
  refine ⟨fun s => ?_, ?_⟩
  · by_cases hs : s = .debugLog
    · rw [hs]
      exact h.debug
    · by_contra hne
      have hmem : Severity.infoLog ∈ descending s := by cases s <;> first | exact absurd rfl hs | decide
      have hsome := h.closed s (Option.isSome_iff_ne_none.2 hne) .infoLog hmem
      rw [hinfo] at hsome
      cases hsome
  · have hstands := h.info
    simp only [Stands, hinfo, linesFor, List.map_eq_nil_iff, List.filter_eq_nil_iff, decide_eq_true_eq] at hstands
    refine List.eq_nil_iff_forall_not_mem.2 (fun c hc => hstands c hc ?_)
    cases c.1 <;> decide

/-- The end of a call that does not end the program. -/
theorem finish_spec {g b : Nat} {s : Severity} {data : GoString} (hex : (finish maxSize env st g s b data).exited = none) :
    s ≠ .fatalLog ∧ (finish maxSize env st g s b data).buffers = (putBuffer st b).buffers ∧
      (finish maxSize env st g s b data).freeList = (putBuffer st b).freeList ∧
      (finish maxSize env st g s b data).made = st.made ∧ (finish maxSize env st g s b data).files = st.files ∧
      (finish maxSize env st g s b data).filed = st.filed ∧ (finish maxSize env st g s b data).hung = st.hung ∧
      (finish maxSize env st g s b data).goroutines = Function.update st.goroutines g .idle := by
  by_cases hs : s = .fatalLog
  · unfold finish at hex
    rw [if_pos hs] at hex
    split at hex <;> cases hex
  · have hput : (putBuffer st b).made = st.made ∧ (putBuffer st b).files = st.files ∧
        (putBuffer st b).filed = st.filed ∧ (putBuffer st b).hung = st.hung ∧
        (putBuffer st b).goroutines = st.goroutines := by
      unfold putBuffer
      split <;> exact ⟨rfl, rfl, rfl, rfl, rfl⟩
    obtain ⟨h1, h2, h3, h4, h5⟩ := hput
    unfold finish
    rw [if_neg hs]
    refine ⟨hs, rfl, rfl, h1, h2, h3, h4, ?_⟩
    show Function.update (putBuffer st b).goroutines g .idle = _
    rw [h5]

theorem putBuffer_setPc (st : St) (g b : Nat) (pc : Pc) : putBuffer (setPc st g pc) b = setPc (putBuffer st b) g pc := by
  by_cases hbig : 256 ≤ (st.buffers b).bytes.length <;> simp [putBuffer, setPc, hbig]

/-- A call that ends without ending the program gives its buffer back; its line is in the files or was not for them. -/
theorem inv_finish {l : List Nat} {g b : Nat} {s : Severity} {text data : GoString} {mid : St} (h : Owned st l)
    (hpc : st.goroutines g = .format s b text) (hhung : mid.hung = false) (hfiled : Filed maxSize mid.files mid.filed)
    (hbuffers : mid.buffers = Function.update st.buffers b { st.buffers b with bytes := data })
    (hgo : mid.goroutines = st.goroutines) (hfree : mid.freeList = st.freeList) (hmade : mid.made = st.made)
    (hex : (finish maxSize env mid g s b data).exited = none) :
    Inv maxSize (finish maxSize env mid g s b data) := by
  obtain ⟨-, h1, h2, h3, h4, h5, h6, h7⟩ := finish_spec hex
  have hold : (st.goroutines g).buffer = some b := by rw [hpc]; rfl
  -- while the line is written the buffer is still the goroutine's
  have hmidOwned : Owned (setPc mid g (.taken s b)) l := by
    refine h.write (.taken s b) hold rfl hbuffers ?_ hfree hmade trivial
    show Function.update mid.goroutines g (.taken s b) = _
    rw [hgo]
  refine ⟨?_, ?_, fun hh => ?_⟩
  · refine owned_putBuffer hmidOwned (g := g) (b := b) ?_ (by rw [putBuffer_setPc]; exact h1)
      (by rw [putBuffer_setPc]; exact h2) h3 ?_
    · show (Function.update mid.goroutines g (.taken s b) g).buffer = some b
      rw [Function.update_self]
      rfl
    · rw [h7]
      show _ = Function.update (Function.update mid.goroutines g (.taken s b)) g .idle
      rw [Function.update_idem]
  · rw [h4, h5]
    exact hfiled
  · rw [h6, hhung] at hh
    cases hh

theorem inv_output (h : Inv maxSize st) (hhung : st.hung = false) {g b : Nat} {s : Severity}
    {text : GoString} (hpc : st.goroutines g = .format s b text)
    (hex : (output maxSize env st g s b text).exited = none) : Inv maxSize (output maxSize env st g s b text) := by
  obtain ⟨l, howned⟩ := h.owned
  have htext : (st.buffers b).bytes = text := by
    have hreads := howned.reads g
    rw [hpc] at hreads
    exact hreads
  unfold output at hex ⊢
  rw [htext] at hex ⊢
  dsimp only at hex ⊢
  split at hex
  · rename_i hparsed
    rw [if_pos hparsed]
    exact inv_finish howned hpc hhung h.filed rfl rfl rfl rfl hex
  · rename_i hparsed
    rw [if_neg hparsed]
    split at hex
    · rename_i hstderr
      rw [if_pos hstderr]
      exact inv_finish howned hpc hhung h.filed rfl rfl rfl rfl hex
    · rename_i hstderr
      rw [if_neg hstderr]
      have hens := h.filed.ensured env s
      unfold ensured at hens
      generalize (if (st.files s).isSome = true then (true, st.files) else createFiles env (descending s) st.files) = made
        at hens hex ⊢
      obtain ⟨ok, files⟩ := made
      dsimp only at hens hex ⊢
      cases ok with
      | false => cases hex
      | true =>
        obtain ⟨hfiled, hall⟩ := hens rfl
        simp only [not_true_eq_false, if_false] at hex ⊢
        cases hw : writeFiles maxSize env (lineOf env text) (targets s) files with
        | failed files' =>
          rw [hw] at hex
          cases hex
        | panicked files' =>
          -- only a debug line looks for a file that `createFiles` did not make
          obtain ⟨x, hx, hnone⟩ := writeFiles_panicked (nodup_targets s) hw
          have hs : s = .debugLog := by
            by_contra hs
            have hsome := hall x (targets_subset hs x hx)
            rw [hnone] at hsome
            cases hsome
          subst hs
          rw [List.mem_singleton.1 hx] at hnone
          have hsame : files' = files := by
            simp only [targets, writeFiles, hnone] at hw
            cases hw
            rfl
          subst hsame
          have hold : (st.goroutines g).buffer = some b := by rw [hpc]; rfl
          refine ⟨⟨l, ?_⟩, hfiled, fun _ => hnone⟩
          have htaken : Owned (setPc { st with
              buffers := Function.update st.buffers b { st.buffers b with bytes := lineOf env text } } g
                (.taken .debugLog b)) l :=
            howned.write (.taken .debugLog b) hold rfl rfl rfl rfl rfl trivial
          refine htaken.drop g .dead rfl rfl ?_ rfl rfl
          show Function.update st.goroutines g .dead = Function.update (Function.update st.goroutines g _) g .dead
          rw [Function.update_idem]
        | all files' =>
          rw [hw] at hex
          have hclosed : ∀ x, (files' x).isSome ↔ (files x).isSome := by
            intro x
            obtain ⟨hout, hin⟩ := writeFiles_all (nodup_targets s) hw
            by_cases hx : x ∈ targets s
            · obtain ⟨sb, sb', h1, -, h3⟩ := hin x hx
              rw [h1, h3]
              exact iff_of_true rfl rfl
            · rw [hout x hx]
          have hdebug : files' .debugLog = none := by
            have hiff := hclosed .debugLog
            rw [hfiled.debug] at hiff
            exact Option.not_isSome_iff_eq_none.1 (fun hh => by cases hiff.1 hh)
          have hfiled' : Filed maxSize files' (st.filed ++ [(s, lineOf env text)]) :=
            ⟨stands_write hfiled.info hw, stands_write hfiled.warning hw, hdebug,
              fun x hx x' hx' => (hclosed x').2 (hfiled.closed x ((hclosed x).1 hx) x' hx')⟩
          exact inv_finish howned hpc hhung hfiled' rfl rfl rfl rfl hex

theorem inv_init : Inv maxSize init := by
  refine ⟨⟨[], rfl, List.nodup_nil, List.forall_mem_nil _, ?_, ?_, fun _ => trivial⟩, ⟨rfl, rfl, rfl, ?_⟩, ?_⟩
  · intro g b hb
    cases hb
  · intro g g' b hb
    cases hb
  · intro s hs
    cases hs
  · intro hh
    cases hh

/-- **Every step that does not end the program keeps buffers, files and lock in order.** -/
theorem inv_step {lab : Label} (h : Inv maxSize st) (hs : step maxSize st lab = some st') (hex : st'.exited = none) :
    Inv maxSize st' := by
  obtain ⟨l, howned⟩ := h.owned
  have hrun : st.exited = none := by
    by_contra hne
    simp [step, hne] at hs
  simp only [step, hrun, ne_eq, not_true_eq_false, if_false] at hs
  cases lab with
  | getBuffer g s =>
    simp only at hs
    split at hs
    · rename_i hidle
      cases hs
      have hkeep : (getBuffer st g s).files = st.files ∧ (getBuffer st g s).filed = st.filed ∧
          (getBuffer st g s).hung = st.hung := by
        unfold getBuffer
        split <;> exact ⟨rfl, rfl, rfl⟩
      obtain ⟨h1, h2, h3⟩ := hkeep
      refine ⟨owned_getBuffer howned s hidle, ?_, ?_⟩
      · rw [h1, h2]
        exact h.filed
      · rw [h1, h3]
        exact h.hung
    · cases hs
  | reset g =>
    simp only at hs
    split at hs
    · rename_i s b hpc
      cases hs
      refine ⟨⟨l, howned.write (.header s b) (by rw [hpc]; rfl) rfl rfl rfl rfl rfl ?_⟩, h.filed, h.hung⟩
      simp [Pc.Reads, setPc]
    · cases hs
  | formatHeader g now pid file line =>
    simp only at hs
    split at hs
    · rename_i s b hpc
      cases hs
      refine ⟨⟨l, howned.write (.format s b _) (by rw [hpc]; rfl) rfl rfl rfl rfl rfl ?_⟩, h.filed, h.hung⟩
      have hempty := howned.reads g
      rw [hpc] at hempty
      simp only [Pc.Reads] at hempty
      simp [Pc.Reads, setPc, hempty]
    · cases hs
  | print g more =>
    simp only at hs
    split at hs
    · rename_i s b text hpc
      cases hs
      refine ⟨⟨l, howned.write (.format s b _) (by rw [hpc]; rfl) rfl rfl rfl rfl rfl ?_⟩, h.filed, h.hung⟩
      have htext := howned.reads g
      rw [hpc] at htext
      simp only [Pc.Reads] at htext
      simp [Pc.Reads, setPc, htext]
    · cases hs
  | output g env =>
    simp only at hs
    split at hs
    · rename_i s b text hpc
      split at hs
      · cases hs
      · rename_i hhung
        cases hs
        exact inv_output h (by simpa using hhung) hpc hex
    · cases hs
  | flush =>
    simp only at hs
    split at hs
    · cases hs
    · rename_i hhung
      cases hs
      exact ⟨⟨l, howned.congr rfl rfl rfl rfl⟩, h.filed.flushAll, fun hh => absurd hh hhung⟩
  | setFlags flags =>
    cases hs
    exact ⟨⟨l, howned.congr rfl rfl rfl rfl⟩, h.filed, h.hung⟩

theorem run_inv {ls : List Label} (h : Lts.run (step maxSize) init ls = some st) (hex : st.exited = none) :
    Inv maxSize st := by
  refine Lts.Reachable.invariant (I := fun st => st.exited = none → Inv maxSize st) (fun _ => inv_init) ?_
    (Lts.Reachable.of_run h) hex
  intro s l s' hi hs hex'
  have hrun : s.exited = none := by
    by_contra hne
    simp [step, hne] at hs
  exact inv_step (hi hrun) hs hex'

theorem linesFor_info (filed : List (Severity × GoString)) : linesFor .infoLog filed = filed.map Prod.snd := by
  unfold linesFor
  rw [List.filter_eq_self.2]
  intro c _
  cases c.1 <;> decide

theorem linesFor_warning (filed : List (Severity × GoString)) :
    linesFor .warningLog filed = (filed.filter (fun c => 2 ≤ c.1.toInt)).map Prod.snd := by
  unfold linesFor
  congr 1
  refine List.filter_congr (fun c _ => ?_)
  cases c.1 <;> decide

end Runs

def newYear : Clock := ⟨1, 2, 3, 4, 5, 6007⟩

def plainEnv : Env := ⟨fun _ => some [72, 10], fun _ => some [82, 10], false, [], []⟩

/-- Two goroutines write their lines at the same time, a third call reuses the first one's buffer; the third line does
not fit any more. -/
def threeCalls : List Label :=
  [.setFlags ⟨true, false, false, 3, false⟩, .getBuffer 0 .infoLog, .getBuffer 1 .warningLog,
    .formatHeader 1 newYear 77 [98] 2, .formatHeader 0 newYear 77 [97] 1, .print 0 [104], .print 1 [119], .print 0 [105],
    .output 1 plainEnv, .flush, .output 0 plainEnv, .getBuffer 2 .infoLog, .reset 2, .formatHeader 2 newYear 77 [97] 30,
    .print 2 [120, 10], .output 2 plainEnv]

/-- Once the lock is lost, nothing is logged any more. -/
theorem hung_step {maxSize : Nat} {st st' : St} {l : Label} (hhung : st.hung = true)
    (hs : step maxSize st l = some st') :
    st'.hung = true ∧ st'.filed = st.filed ∧ st'.files = st.files := by
  unfold step at hs
  split at hs
  · cases hs
  · cases l with
    | getBuffer g s =>
      simp only at hs
      split at hs
      · cases hs
        unfold getBuffer
        split <;> exact ⟨hhung, rfl, rfl⟩
      · cases hs
    | output g env =>
      simp only at hs
      split at hs <;> cases hs
    | flush =>
      cases hs
    | setFlags flags =>
      cases hs
      exact ⟨hhung, rfl, rfl⟩
    | _ =>
      simp only at hs
      split at hs
      · cases hs
        exact ⟨hhung, rfl, rfl⟩
      · cases hs

theorem hung_run {maxSize : Nat} {st st' : St} {ls : List Label} (hhung : st.hung = true)
    (h : Lts.run (step maxSize) st ls = some st') :
    st'.hung = true ∧ st'.filed = st.filed ∧ st'.files = st.files := by
  refine Lts.Reachable.invariant (I := fun s => s.hung = true ∧ s.filed = st.filed ∧ s.files = st.files)
    ⟨hhung, rfl, rfl⟩ ?_ (Lts.Reachable.of_run h)
  intro s l s' hi hs
  obtain ⟨h1, h2, h3⟩ := hung_step hi.1 hs
  exact ⟨h1, h2.trans hi.2.1, h3.trans hi.2.2⟩

/-- Where the files a line needs can be made and written, only a debug line finds none. -/
theorem writeFiles_of_created (maxSize : Nat) {env : Env} (data : GoString) {fs : Files} (hrot : ∀ s, (env.rotated s).isSome) :
    ∀ {ts : List Severity}, ts.Nodup → (∀ x ∈ ts, (fs x).isSome) → ∃ fs', writeFiles maxSize env data ts fs = .all fs' := by
  intro ts
  induction ts generalizing fs with
  | nil => exact fun _ _ => ⟨fs, rfl⟩
  | cons s rest ih =>
    intro hnd hall
    obtain ⟨hs, hnd⟩ := List.nodup_cons.1 hnd
    obtain ⟨sb, hsb⟩ := Option.isSome_iff_exists.1 (hall s List.mem_cons_self)
    obtain ⟨header, hheader⟩ := Option.isSome_iff_exists.1 (hrot s)
    have hw : ∃ sb', sb.write maxSize (env.rotated s) data = some sb' := by
      unfold SyncBuffer.write
      rw [hheader]
      split
      · exact ⟨_, rfl⟩
      · exact ⟨_, rfl⟩
    obtain ⟨sb', hw⟩ := hw
    unfold writeFiles
    simp only [hsb, hw]
    refine ih hnd (fun x hx => ?_)
    have hne : x ≠ s := fun he => hs (he ▸ hx)
    rw [Function.update_of_ne hne]
    exact hall x (List.mem_cons_of_mem _ hx)

theorem createFiles_of_created {env : Env} (hcr : ∀ s, (env.created s).isSome) : ∀ (ss : List Severity) (fs : Files),
    (createFiles env ss fs).1 = true
  | [], _ => rfl
  | s :: rest, fs => by
    obtain ⟨header, hheader⟩ := Option.isSome_iff_exists.1 (hcr s)
    unfold createFiles
    split
    · rfl
    · simp only [hheader]
      exact createFiles_of_created hcr rest _

/-- **The first line decides.**  In any state of any run where no log file has been made yet and lines go to files, the
next call of `output` panics with `l.mu` held exactly when its line is a debug line, even though every file could be
made; from then on no `output` and no flush ever happens again and no file is ever made. -/
theorem debug_first_hangs (maxSize : Nat) (ls : List Label) (st : St) (h : Lts.run (step maxSize) init ls = some st)
    (hex : st.exited = none) (hfree : st.hung = false) (hnone : st.files .infoLog = none)
    (hflags : st.flags.parsed = true ∧ st.flags.toStderr = false) {g b : Nat} {s : Severity} {text : GoString}
    (hpc : st.goroutines g = .format s b text) (env : Env) (hcr : ∀ s, (env.created s).isSome)
    (hrot : ∀ s, (env.rotated s).isSome) :
    ∃ st', step maxSize st (.output g env) = some st' ∧ (st'.hung = true ↔ s = .debugLog) ∧
      (s = .debugLog → ∀ ls' st'', Lts.run (step maxSize) st' ls' = some st'' →
        st''.filed = [] ∧ (∀ x, st''.files x = none) ∧ step maxSize st'' .flush = none ∧
          ∀ g' env', step maxSize st'' (.output g' env') = none) := by
  have hinv := run_inv h hex
  obtain ⟨hempty, hfiled⟩ := hinv.filed.none_of_info hnone
  have hstep : step maxSize st (.output g env) = some (output maxSize env st g s b text) := by
    simp [step, hex, hpc, hfree]
  refine ⟨_, hstep, ?_⟩
  have hok := createFiles_of_created hcr (descending s) st.files
  by_cases hs : s = .debugLog
  · subst hs
    have hout : (output maxSize env st g .debugLog b text).hung = true ∧
        (output maxSize env st g .debugLog b text).filed = [] ∧
        (output maxSize env st g .debugLog b text).files = st.files := by
      simp [output, hflags.1, hflags.2, hinv.filed.debug, descending, createFiles, targets, writeFiles, hnone, setPc,
        hfiled]
    refine ⟨iff_of_true hout.1 rfl, fun _ ls' st'' hrun => ?_⟩
    obtain ⟨h1, h2, h3⟩ := hung_run hout.1 hrun
    refine ⟨h2.trans hout.2.1, fun x => ?_, ?_, fun g' env' => ?_⟩
    · rw [h3, hout.2.2]
      exact hempty x
    · simp [step, h1]
    · simp only [step, h1, if_true]
      split
      · rfl
      · split <;> rfl
  · refine ⟨iff_of_false ?_ hs, fun he => absurd he hs⟩
    have hall := createFiles_descending hinv.filed.closed s hok
    obtain ⟨files', hw⟩ := writeFiles_of_created maxSize (lineOf env (st.buffers b).bytes) hrot
      (nodup_targets s) (fun x hx => hall x (targets_subset hs x hx))
    have hmade : createFiles env (descending s) st.files = (true, (createFiles env (descending s) st.files).2) :=
      Prod.ext hok rfl
    have hfinish : ∀ mid : St, mid.hung = false → ∀ data, (finish maxSize env mid g s b data).hung = false := by
      intro mid hmid data
      unfold finish putBuffer
      split
      · split <;> exact hmid
      · simp only [setPc]
        split <;> exact hmid
    unfold output
    simp only [hflags.1, hflags.2, hempty s, Option.isSome_none, not_true_eq_false, if_false, Bool.false_eq_true]
    rw [hmade]
    simp only [not_true_eq_false, if_false, hw]
    rw [Bool.not_eq_true]
    apply hfinish
    exact hfree

theorem debug_first_hangs_afterParse : ∃ st, Lts.run (step 100) init [.setFlags ⟨true, false, false, 3, false⟩,
      .getBuffer 0 .debugLog, .formatHeader 0 newYear 77 [97] 1] = some st ∧
    ∃ st', step 100 st (.output 0 plainEnv) = some st' ∧ st'.hung = true := by
  have hsome : (Lts.run (step 100) init [.setFlags ⟨true, false, false, 3, false⟩, .getBuffer 0 .debugLog,
      .formatHeader 0 newYear 77 [97] 1]).isSome = true := by decide +kernel
  obtain ⟨st, hst⟩ := Option.isSome_iff_exists.1 hsome
  have hend : (Lts.run (step 100) init [.setFlags ⟨true, false, false, 3, false⟩, .getBuffer 0 .debugLog,
      .formatHeader 0 newYear 77 [97] 1]).map (fun st => (st.exited, st.hung, st.flags.parsed, st.flags.toStderr)) =
      some (none, false, true, false) := by decide +kernel
  have hpc : (Lts.run (step 100) init [.setFlags ⟨true, false, false, 3, false⟩, .getBuffer 0 .debugLog,
      .formatHeader 0 newYear 77 [97] 1]).map (fun st => (st.goroutines 0, st.files .infoLog)) =
      some (.format .debugLog 0 (formatHeader .debugLog newYear 77 [97] 1 Buffer.zero.tmp).1, none) := by decide +kernel
  rw [hst, Option.map_some, Option.some.injEq, Prod.mk.injEq, Prod.mk.injEq, Prod.mk.injEq] at hend
  rw [hst, Option.map_some, Option.some.injEq, Prod.mk.injEq] at hpc
  obtain ⟨st', hstep, hiff, -⟩ := debug_first_hangs 100 _ st hst hend.1 hend.2.1 hpc.2 hend.2.2 hpc.1
    plainEnv (fun _ => rfl) (fun _ => rfl)
  exact ⟨st, hst, st', hstep, hiff.2 rfl⟩

end Glog
end Xrtc
