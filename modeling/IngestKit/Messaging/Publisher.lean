import IngestKit.Event.Encode
import Mathlib.Data.List.Perm.Basic
import Mathlib.Data.List.Range
import Mathlib.Logic.Relation

/-! Publication of a list of events: encode all of them, hand each record to the producer,
then collect one result for each from a buffered channel until a failure or the deadline.
Callbacks run at most once, at any time after their record was produced. -/
namespace IngestKit.Messaging
open Event

structure BrokerRecord where
  topic : Bytes
  key : Bytes
  value : Bytes
  deriving DecidableEq

/-- As far as `send` tells broker errors apart. -/
inductive BrokerError
  | maxBuffered | timeout | other
  deriving DecidableEq

inductive PublishError
  | encoding (e : Error)
  | saturated
  | unavailable
  deriving DecidableEq

def recordKey (tenant : Bytes) (id : UUID) : Bytes := tenant ++ 0x3a :: id.string

/-- The first half of `Publish`: nothing is produced unless every event encodes. -/
def encodeRecords (topic : Bytes) : List Envelope → Except Error (List BrokerRecord)
  | [] => .ok []
  | e :: es =>
    match encodeEnvelope e with
    | .error err => .error err
    | .ok raw =>
      match encodeRecords topic es with
      | .error err => .error err
      | .ok rs => .ok (⟨topic, recordKey e.tenantID e.eventID, raw⟩ :: rs)

/-- `send`. `waiting` are records whose callback has not run, `reported` the callbacks that
ran, and `taken` counts results received from the channel. -/
structure Sending where
  records : List BrokerRecord
  produced : ℕ
  waiting : List ℕ
  reported : List (ℕ × Option BrokerError)
  channel : List (Option BrokerError)
  taken : ℕ
  result : Option (Except PublishError Unit)

namespace Sending

def start (records : List BrokerRecord) : Sending := ⟨records, 0, [], [], [], 0, none⟩

/-- The channel is made with one place for each record. -/
def capacity (s : Sending) : ℕ := s.records.length

def failure : BrokerError → PublishError
  | .maxBuffered => .saturated
  | _ => .unavailable

/-- The result one receive leads to; `none` goes on. -/
def outcome : Option BrokerError → Option (Except PublishError Unit)
  | none => none
  | some e => some (.error (failure e))

inductive Step : Sending → Sending → Prop
  | produce {s : Sending} (h : s.result = none) (hp : s.produced < s.records.length) :
      Step s { s with produced := s.produced + 1, waiting := s.waiting ++ [s.produced] }
  | callback {s : Sending} {i : ℕ} (e : Option BrokerError) (h : i ∈ s.waiting)
      (room : s.channel.length < s.capacity) :
      Step s { s with
        waiting := s.waiting.erase i
        reported := s.reported ++ [(i, e)]
        channel := s.channel ++ [e] }
  | receive {s : Sending} {e : Option BrokerError} {rest : List (Option BrokerError)}
      (h : s.result = none) (hp : s.produced = s.records.length)
      (ht : s.taken < s.records.length) (hc : s.channel = e :: rest) :
      Step s { s with channel := rest, taken := s.taken + 1, result := outcome e }
  | deadline {s : Sending} (h : s.result = none) (hp : s.produced = s.records.length)
      (ht : s.taken < s.records.length) :
      Step s { s with result := some (.error .unavailable) }
  | finish {s : Sending} (h : s.result = none) (hp : s.produced = s.records.length)
      (ht : s.taken = s.records.length) : Step s { s with result := some (.ok ()) }

/-- Every produced record is waiting or reported, once; results come out of the channel in
the order they were reported; all results taken so far were successes unless `send` failed. -/
structure Inv (s : Sending) : Prop where
  produced : s.produced ≤ s.records.length
  split : (s.waiting ++ s.reported.map Prod.fst).Perm (List.range s.produced)
  order : ∃ taken, taken.length = s.taken ∧ s.reported.map Prod.snd = taken ++ s.channel ∧
    ((∀ err, s.result ≠ some (.error err)) → ∀ e ∈ taken, e = none)
  done : s.result = some (.ok ()) → s.taken = s.records.length

theorem inv_start (records : List BrokerRecord) : (start records).Inv where
  produced := Nat.zero_le _
  split := List.Perm.refl _
  order := ⟨[], rfl, rfl, by simp⟩
  done := fun h => by cases h

theorem Inv.step {s s' : Sending} (h : s.Inv) (hs : Step s s') : s'.Inv := by
  obtain ⟨hprod, hsplit, ⟨taken, hlen, horder, hok⟩, hdone⟩ := h
  cases hs with
  | produce hr hp =>
    refine ⟨hp, ?_, ⟨taken, hlen, horder, hok⟩, hdone⟩
    rw [List.range_succ]
    refine List.Perm.trans ?_ (hsplit.append_right [s.produced])
    rw [List.append_assoc, List.append_assoc]
    exact (List.perm_append_comm).append_left s.waiting
  | @callback i e hi room =>
    refine ⟨hprod, ?_, ⟨taken, hlen, ?_, hok⟩, hdone⟩
    · refine List.Perm.trans ?_ hsplit
      have herase : (i :: s.waiting.erase i).Perm s.waiting := (List.perm_cons_erase hi).symm
      refine List.Perm.trans ?_ (herase.append_right _)
      rw [List.map_append, List.map_singleton, ← List.append_assoc]
      exact List.perm_append_singleton _ _
    · rw [List.map_append, List.map_singleton, horder, List.append_assoc]
  | @receive e rest hr hp ht hc =>
    refine ⟨hprod, hsplit, ⟨taken ++ [e], by simp [hlen], ?_, ?_⟩, ?_⟩
    · rw [horder, hc, List.append_assoc, List.singleton_append]
    · intro hne x hx
      cases e with
      | none =>
        rcases List.mem_append.mp hx with hx | hx
        · exact hok (by simp [hr]) x hx
        · exact List.mem_singleton.mp hx
      | some err => exact absurd rfl (hne (failure err))
    · cases e <;> intro hd <;> cases hd
  | deadline hr hp ht =>
    exact ⟨hprod, hsplit, ⟨taken, hlen, horder, fun hne => absurd rfl (hne .unavailable)⟩,
      fun hd => by cases hd⟩
  | finish hr hp ht =>
    exact ⟨hprod, hsplit, ⟨taken, hlen, horder, fun _ => hok (by simp [hr])⟩, fun _ => ht⟩

private theorem Inv.count {s : Sending} (h : s.Inv) :
    s.waiting.length + s.reported.length = s.produced ∧
      s.reported.length = s.taken + s.channel.length := by
  obtain ⟨taken, hlen, horder, -⟩ := h.order
  have hsplit := h.split.length_eq
  have horder' := congrArg List.length horder
  rw [List.length_append, List.length_map, List.length_range] at hsplit
  rw [List.length_map, List.length_append] at horder'
  omega

/-- A callback always finds room in the channel. -/
theorem Inv.room {s : Sending} (h : s.Inv) {i : ℕ} (hi : i ∈ s.waiting) :
    s.channel.length < s.capacity := by
  obtain ⟨hcount, htaken⟩ := h.count
  have hpos := List.length_pos_of_mem hi
  have hprod := h.produced
  rw [capacity]
  omega

/-- When `send` returns no error, each record's callback reported success. -/
theorem Inv.all_reported {s : Sending} (h : s.Inv) (hr : s.result = some (.ok ())) {i : ℕ}
    (hi : i < s.records.length) : (i, none) ∈ s.reported := by
  obtain ⟨hcount, htaken⟩ := h.count
  obtain ⟨taken, hlen, horder, hok⟩ := h.order
  have hdone := h.done hr
  have hprod := h.produced
  have hwait : s.waiting = [] := List.length_eq_zero_iff.mp (by omega)
  have hchan : s.channel = [] := List.length_eq_zero_iff.mp (by omega)
  have hmem : i ∈ s.reported.map Prod.fst := by
    have hp := h.split
    rw [hwait, List.nil_append] at hp
    exact hp.mem_iff.mpr (List.mem_range.mpr (by omega))
  obtain ⟨⟨j, e⟩, hje, rfl⟩ := List.mem_map.mp hmem
  have he : e ∈ taken := by
    have hm : e ∈ s.reported.map Prod.snd := List.mem_map_of_mem (f := Prod.snd) hje
    rwa [horder, hchan, List.append_nil] at hm
  have hnone : e = none := hok (by simp [hr]) e he
  rw [← hnone]
  exact hje

/-- `send` has a result only after it handed every record to the producer. -/
def Complete (s : Sending) : Prop := s.result ≠ none → s.produced = s.records.length

theorem Complete.step {s s' : Sending} (h : s.Complete) (hs : Step s s') : s'.Complete := by
  cases hs with
  | produce hr hp => exact fun hne => absurd hr hne
  | callback e hi room => exact h
  | receive hr hp ht hc => exact fun _ => hp
  | deadline hr hp ht => exact fun _ => hp
  | finish hr hp ht => exact fun _ => hp

theorem records_step {s s' : Sending} (hs : Step s s') : s'.records = s.records := by
  cases hs <;> rfl

end Sending

end IngestKit.Messaging
