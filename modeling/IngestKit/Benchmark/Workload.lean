import IngestKit.Benchmark.Accounting
import IngestKit.Event.Encode
import IngestKit.Text.Decimal

/-! Deterministic datasets: the IDs, contents and occurrence times of a case's events. -/
namespace IngestKit.Benchmark
open Event Json

structure WorkloadConfig where
  space : Bytes
  payloadProfile : PayloadProfile
  seed : ℤ
  count : ℕ
  payloadBytes : ℕ
  duplicateFraction : ℚ

namespace WorkloadConfig

def Valid (c : WorkloadConfig) : Prop :=
  0 < c.count ∧ c.count ≤ 1000000 ∧ c.space.length ≤ 256 ∧ c.payloadProfile ≠ .other ∧
    16 ≤ c.payloadBytes ∧ c.payloadBytes ≤ maxEventBytes - 2048 ∧ 0 ≤ c.duplicateFraction ∧
    c.duplicateFraction < 1

instance (c : WorkloadConfig) : Decidable c.Valid := inferInstanceAs (Decidable (_ ∧ _))

def unique (c : WorkloadConfig) : ℕ := c.count - (c.count * c.duplicateFraction).floor.toNat

end WorkloadConfig

/-- The name an event ID is the version 5 UUID of. -/
def eventName (space : Bytes) (seed : ℤ) (i : ℕ) : Bytes :=
  space ++ 0x2f :: (decimalInt seed ++ 0x2f :: decimal i)

def alphabet : Bytes :=
  ascii ['A', 'B', 'C', 'D', 'E', 'F', 'G', 'H', 'I', 'J', 'K', 'L', 'M', 'N', 'O', 'P', 'Q', 'R',
    'S', 'T', 'U', 'V', 'W', 'X', 'Y', 'Z', 'a', 'b', 'c', 'd', 'e', 'f', 'g', 'h', 'i', 'j', 'k',
    'l', 'm', 'n', 'o', 'p', 'q', 'r', 's', 't', 'u', 'v', 'w', 'x', 'y', 'z', '0', '1', '2', '3',
    '4', '5', '6', '7', '8', '9', '_', '-']

/-- Text of a given length from the digests of the offsets 0, 32, 64 and so on. -/
def variedText (P : Platform) (c : WorkloadConfig) (i length : ℕ) : Bytes :=
  ((List.range ((length + 31) / 32)).flatMap fun block =>
    (P.sha256 (eventName c.space c.seed i ++ 0x2f :: decimal (32 * block))).map fun b =>
      alphabet.getD (b.toNat % 64) 0).take length

/-- The seed and the index in hexadecimal, in the place of the first letters of the padding. -/
def fixedText (c : WorkloadConfig) (i length : ℕ) : Bytes :=
  let mark := ascii (Nat.toDigits 16 (BitVec.ofInt 64 c.seed ^^^ BitVec.ofNat 64 i).toNat)
  let padding := List.replicate length 0x78
  if mark.length ≤ padding.length then mark ++ padding.drop mark.length else padding

def payloadData (P : Platform) (c : WorkloadConfig) (i : ℕ) : Bytes :=
  if c.payloadProfile = .varied then variedText P c i (c.payloadBytes - 11)
  else fixedText c i (c.payloadBytes - 11)

/-- The event type of a dataset. -/
def datasetType (P : Platform) (space : Bytes) : Bytes :=
  if space = [] then ascii ['c', 'h', 'e', 'c', 'k', 'o', 'u', 't', '_', 'e', 'v', 'e', 'n', 't']
  else ascii ['b', 'e', 'n', 'c', 'h', '_'] ++ UUID.hex ((P.sha256 space).take 8)

/-- Midnight of 1 January 2026 and `i` microseconds. -/
def occurrence (i : ℕ) : Time where
  sec := 63902822400 + i / 1000000
  nsec := i % 1000000 * 1000
  offset := 0
  nsec_lt := by omega

def workloadEvent (P : Platform) (c : WorkloadConfig) (i : ℕ) : Envelope where
  eventID := P.uuid5 (if c.space = [] then decimalInt c.seed ++ 0x2f :: decimal i
    else eventName c.space c.seed i)
  eventType := datasetType P c.space
  occurredAt := occurrence i
  payload := (Value.object (.one (.plain (ascii ['d', 'a', 't', 'a']))
    (.string (quote (payloadData P c i))) [])).print
  tenantID := ascii ['b', 'e', 'n', 'c', 'h', 'm', 'a', 'r', 'k']
  receivedAt := occurrence 0

/-- `Workload`: the unique events, then repetitions of them up to the count. -/
def workload (P : Platform) (c : WorkloadConfig) : Except GoError (List Envelope) :=
  if c.Valid then
    .ok ((List.range c.unique).map (workloadEvent P c) ++
      (List.range (c.count - c.unique)).map fun i => workloadEvent P c (i % c.unique))
  else .error (.text "invalid workload count, payload size or duplicate fraction")

theorem workload_of_unique {P : Platform} {c : WorkloadConfig} (hvalid : c.Valid)
    (hdup : c.duplicateFraction = 0) :
    workload P c = .ok ((List.range c.count).map (workloadEvent P c)) := by
  have hunique : c.unique = c.count := by
    rw [WorkloadConfig.unique, hdup, mul_zero]
    rfl
  rw [workload, if_pos hvalid, hunique, Nat.sub_self, List.range_zero, List.map_nil,
    List.append_nil]

/-- Without repetitions the IDs are those of the names. -/
theorem ids_workload {P : Platform} {c : WorkloadConfig} {es : List Envelope}
    (h : workload P c = .ok es) (hspace : c.space ≠ []) (hdup : c.duplicateFraction = 0) :
    es.map (·.eventID) = (List.range c.count).map fun i =>
      P.uuid5 (eventName c.space c.seed i) := by
  have hvalid : c.Valid := by
    by_contra hinvalid
    rw [workload, if_neg hinvalid] at h
    cases h
  rw [workload_of_unique hvalid hdup] at h
  cases h
  rw [List.map_map]
  refine List.map_congr_left fun i _ => ?_
  simp [workloadEvent, hspace]

end IngestKit.Benchmark
