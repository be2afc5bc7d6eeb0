import Xrtc.ConnTableInv
/-!
# TableGrowth — `conns_` under a sequence of `new_conn` calls

`new_conn` grows the table to `fd * 2` when the descriptor is outside of it, in `int` arithmetic, and stores the new
connection.  `read_query`, `_write_reply` and `_response_server_offer` each check a descriptor in their own way.
-/
namespace Xrtc
namespace TableGrowth

open ConnReuse (slot setConn)
open WriteReply (writeTarget)
open Offer (replyTarget)

/-- The table, and the connection each descriptor was last given. -/
structure St where
  conns : List (Option Addr)
  latest : Nat → Option Addr
  crashed : Bool

def init : St := ⟨[], fun _ => none, false⟩

/-- `new_conn(fd)`, `fd` not negative, with the new connection at address `a`. -/
def step (s : St) (call : Nat × Addr) : Option St :=
  if s.crashed = true then none
  else
    let latest := Function.update s.latest call.1 (some call.2)
    match setConn s.conns call.1 call.2 with
    | none => some ⟨s.conns, latest, true⟩
    | some table => some ⟨table, latest, false⟩

/-- All three operations accept the descriptor and find the connection. -/
structure Accepts (conns : List (Option Addr)) (fd : Nat) (a : Addr) : Prop where
  inBounds : fd < conns.length
  read : slot conns fd = some a
  write : writeTarget conns fd = some a
  reply : ∀ (W : Type) (msg : RtcMsg W), msg.conn = some a → msg.fd = fd → replyTarget conns msg = some a

/-- **Growth in bounds**: no call has overflowed or stored outside the table, and every descriptor taken is accepted. -/
structure InBounds (s : St) : Prop where
  sound : s.crashed = false
  sized : s.conns.length < 2 ^ 31
  accepts : ∀ fd a, s.latest fd = some a → Accepts s.conns fd a

/-- The descriptor is not 0, and inside the table or small enough to double. -/
def Doubles (s : St) (call : Nat × Addr) : Prop := 1 ≤ call.1 ∧ (call.1 < s.conns.length ∨ call.1 < 2 ^ 30)

instance (s : St) (call : Nat × Addr) : Decidable (Doubles s call) :=
  inferInstanceAs (Decidable (1 ≤ call.1 ∧ (call.1 < s.conns.length ∨ call.1 < 2 ^ 30)))

theorem accepts_of_getElem {conns : List (Option Addr)} {fd : Nat} {a : Addr} (h1 : 1 ≤ fd)
    (h : conns[fd]? = some (some a)) : Accepts conns fd a := by
  have hlt : fd < conns.length := (List.getElem?_eq_some_iff.1 h).1
  have hget : conns.getD fd none = some a := by rw [List.getD_eq_getElem?_getD, h, Option.getD_some]
  refine ⟨hlt, ?_, ?_, ?_⟩
  · rw [slot, if_neg (by omega), Int.toNat_natCast, hget]
  · rw [writeTarget, if_neg (by omega), Int.toNat_natCast, hget]
  · intro W msg hconn hfd
    simp only [replyTarget, hconn, hfd, Int.toNat_natCast, hget]
    rw [if_neg (by omega), if_neg (by simp)]

theorem getElem_of_accepts {conns : List (Option Addr)} {fd : Nat} {a : Addr} (h : Accepts conns fd a) :
    1 ≤ fd ∧ conns[fd]? = some (some a) := by
  have hwrite := h.write
  unfold writeTarget at hwrite
  split at hwrite
  · cases hwrite
  · rename_i hguard
    rw [Int.toNat_natCast, List.getD_eq_getElem?_getD] at hwrite
    refine ⟨by omega, ?_⟩
    have hsome := List.getElem?_eq_getElem h.inBounds
    rw [hsome] at hwrite ⊢
    rw [Option.getD_some] at hwrite
    rw [hwrite]

theorem inBounds_step {s s' : St} {call : Nat × Addr} (hi : InBounds s) (hok : Doubles s call)
    (h : step s call = some s') : InBounds s' := by
  obtain ⟨fd, a⟩ := call
  obtain ⟨table, htable, hself, hkeep, hsize⟩ := ConnTable.setConn_table s.conns fd hok.1 hok.2 a
  simp only [step, hi.sound, Bool.false_eq_true, if_false, htable] at h
  cases h
  refine ⟨rfl, hsize hi.sized, ?_⟩
  intro fd' a' hlatest
  by_cases hfd : fd' = fd
  · subst hfd
    simp only [Function.update_self, Option.some.injEq] at hlatest
    exact accepts_of_getElem hok.1 (hlatest ▸ hself)
  · simp only [Function.update_of_ne hfd] at hlatest
    have hold := hi.accepts fd' a' hlatest
    obtain ⟨h1, hget⟩ := getElem_of_accepts hold
    refine accepts_of_getElem h1 ?_
    rw [hkeep fd' hfd hold.inBounds]
    exact hget

theorem not_inBounds_step {s s' : St} {call : Nat × Addr} (hok : ¬Doubles s call) (h : step s call = some s') :
    ¬InBounds s' := by
  obtain ⟨fd, a⟩ := call
  simp only [Doubles, not_and_or, not_or, Nat.not_le, Nat.not_lt] at hok
  intro hi
  simp only [step] at h
  split at h
  · cases h
  · split at h
    · cases h
      cases hi.sound
    · rename_i table htable
      cases h
      obtain ⟨h1, -⟩ := getElem_of_accepts (hi.accepts fd a (Function.update_self _ _ _))
      -- 0 is refused by `_write_reply`; a larger one did not get a table
      unfold setConn at htable
      rw [if_pos (by omega), if_pos (by omega)] at htable
      cases htable

/-- **The table grows in bounds along every sequence of descriptors that can be doubled**, and no other descriptor keeps
it in bounds. -/
theorem growth_in_bounds {s : St} (h : Lts.Via step Doubles init s) :
    InBounds s ∧ ∀ call s', ¬Doubles s call → step s call = some s' → ¬InBounds s' := by
  constructor
  · refine Lts.Via.invariant ?_ (fun _ _ _ hi hok hs => inBounds_step hi hok hs) h
    refine ⟨rfl, by decide, ?_⟩
    intro fd a hlatest
    cases hlatest
  · intro call s' hok hs
    exact not_inBounds_step hok hs

/-- Descriptors 3, 5 and 7: the table grows, stays, and grows again. -/
def threeCalls : List (Nat × Addr) := [(3, 100), (5, 101), (7, 102)]

theorem growth_in_bounds_threeCalls : ∃ s, Lts.run (Lts.guarded Doubles step) init threeCalls = some s ∧
    s.conns.length = 14 ∧ InBounds s := by
  have hend : (Lts.run (Lts.guarded Doubles step) init threeCalls).map (fun s => s.conns.length) = some 14 := by decide
  obtain ⟨s, hs, hlen⟩ := Option.map_eq_some_iff.1 hend
  exact ⟨s, hs, hlen, (growth_in_bounds (Lts.Via.of_run .start hs)).1⟩

theorem descriptor_zero_out_of_bounds : ¬ ∀ s, Lts.Reachable step init s → InBounds s := by
  intro hall
  have hend : (Lts.run step init [(0, 100)]).map (fun s => s.crashed) = some true := by decide
  obtain ⟨s, hs, hcrashed⟩ := Option.map_eq_some_iff.1 hend
  have hsound := (hall s (Lts.Reachable.of_run hs)).sound
  rw [hsound] at hcrashed
  cases hcrashed

end TableGrowth
end Xrtc
