import Xrtc.Conn
import Mathlib.Data.List.FinRange
/-!
# Route — which RTC worker a stream belongs to

`RtcServer::get_worker` and the worker loop of `RtcServer::Init` (`server/rtc_server.cpp`), with `rtc::ComputeCrc32`
(`rtc_base/crc32.cc`).  The 256 entries of the CRC table are computed where they are looked up.
-/
namespace Xrtc

def kCrc32Polynomial : UInt32 := 0xEDB88320

/-- The inner loop of `LoadCrc32Table`, one bit. -/
def crc32Bit (c : UInt32) : UInt32 := if c &&& 1 ≠ 0 then kCrc32Polynomial ^^^ (c >>> 1) else c >>> 1

def crc32Entry (i : UInt32) : UInt32 := Nat.iterate crc32Bit 8 i

def updateCrc32 (start : UInt32) (buf : List UInt8) : UInt32 :=
  buf.foldl (fun c u => crc32Entry ((c ^^^ u.toUInt32) &&& 0xFF) ^^^ (c >>> 8)) (start ^^^ 0xFFFFFFFF) ^^^ 0xFFFFFFFF

def computeCrc32 (str : List UInt8) : UInt32 := updateCrc32 0 str

/-- `num % options_.worker_num`: the `int` is converted to `uint32_t`. -/
def workerIndex (workerNum : Int) (streamName : List UInt8) : Nat :=
  (computeCrc32 streamName).toNat % (workerNum % 2 ^ 32).toNat

/-- `RtcServer::get_worker`; `workers` is `_workers`. -/
def getWorker {W : Type} (workers : List W) (workerNum : Int) (streamName : List UInt8) : Option W :=
  if workers.length = 0 ∨ workers.length ≠ (workerNum % 2 ^ 64).toNat then none
  else workers[workerIndex workerNum streamName]?

/-- The worker loop of `RtcServer::Init`: `created i` says whether `_create_worker(i)` succeeds; `none` is its `-1`,
otherwise the ids of the workers in `_workers`. -/
def initWorkers (created : Nat → Bool) (workerNum : Int) : Option (List Nat) :=
  (List.range workerNum.toNat).foldlM (fun ws i => if created i = true then some (ws ++ [i]) else none) []

/-- A positive value of the `int` `worker_num`. -/
abbrev WorkerNum := { n : Nat // 0 < n ∧ n < 2 ^ 31 }

abbrev WorkerNum.one : WorkerNum := ⟨1, by decide⟩

section
variable (n : WorkerNum)

theorem WorkerNum.as_uint32 : (((n.val : Nat) : Int) % 2 ^ 32).toNat = n.val := by
  have := n.property.2
  omega

theorem WorkerNum.as_size : (((n.val : Nat) : Int) % 2 ^ 64).toNat = n.val := by
  have := n.property.2
  omega

theorem workerIndex_lt (streamName : List UInt8) : workerIndex n.val streamName < n.val := by
  unfold workerIndex
  rw [n.as_uint32]
  exact Nat.mod_lt _ n.property.1

/-- **`get_worker` finds a worker**, at an index inside `_workers`, whenever the vector has `worker_num` entries. -/
theorem getWorker_eq {W : Type} {workers : List W} (hlen : workers.length = n.val) (streamName : List UInt8) :
    workerIndex n.val streamName < workers.length ∧
      getWorker workers n.val streamName = workers[workerIndex n.val streamName]? := by
  have hpos := n.property.1
  refine ⟨?_, ?_⟩
  · rw [hlen]
    exact workerIndex_lt n streamName
  · unfold getWorker
    rw [n.as_size, hlen]
    exact if_neg (by omega)

end

theorem foldlM_create (created : Nat → Bool) : ∀ (is ws ws' : List Nat),
    is.foldlM (fun ws i => if created i = true then some (ws ++ [i]) else none) ws = some ws' → ws' = ws ++ is
  | [], ws, ws', h => by
    rw [List.foldlM_nil] at h
    cases h
    rw [List.append_nil]
  | i :: is, ws, ws', h => by
    rw [List.foldlM_cons] at h
    obtain ⟨ws₁, h1, h2⟩ := Option.bind_eq_some_iff.1 h
    split at h1
    · cases h1
      rw [foldlM_create created is _ ws' h2, List.append_assoc]
      rfl
    · cases h1

/-- **A successful `Init` leaves `worker_num` workers in the vector**, worker `i` at position `i`. -/
theorem initWorkers_eq {created : Nat → Bool} {workerNum : Int} {ws : List Nat}
    (h : initWorkers created workerNum = some ws) : ws = List.range workerNum.toNat := by
  have := foldlM_create created _ _ _ h
  rwa [List.nil_append] at this

end Xrtc
