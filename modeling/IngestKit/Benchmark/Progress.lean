import IngestKit.Messaging.Drained
import IngestKit.Messaging.Past
import Mathlib.Data.List.AList
import Mathlib.Data.List.Perm.Subperm

/-! The wait for the consumer before an experiment's rows are removed: the end of each partition
against the position the group committed. -/
namespace IngestKit.Benchmark
open Event Persistence Messaging

section Model

/-- A `map[int32]int64`. -/
abbrev Offsets := AList fun _ : ℤ => ℤ

/-- One partition of a response. -/
structure PartitionOffset where
  partition : ℤ
  errorCode : ℤ
  offset : ℤ
  deriving DecidableEq

def offsetsCaughtUp (ends committed : Offsets) : Bool :=
  !ends.entries.isEmpty && ends.entries.all fun entry =>
    if entry.2 < 0 then false
    else
      match committed.lookup entry.1 with
      | none => entry.2 == 0
      | some offset => entry.2 == 0 && offset == -1 || offset == entry.2

structure OffsetProgress where
  available : Bool
  ends : Offsets
  committed : Offsets

def Offsets.record (m : Offsets) (p : PartitionOffset) : Offsets :=
  if p.errorCode = 0 then m.insert p.partition p.offset else m

/-- The partitions of the topic. -/
def probed : List ℤ := [0, 1, 2]

/-- The two responses, `none` if the request failed. The second lists the group's positions under
groups and under topics. -/
def readOffsetProgress (list : Option (List PartitionOffset))
    (fetch : Option (List PartitionOffset × List PartitionOffset)) : OffsetProgress :=
  let ends := (list.getD []).foldl Offsets.record ∅
  let committed := match fetch with
    | none => ∅
    | some (groups, topics) => topics.foldl Offsets.record (groups.foldl Offsets.record ∅)
  ⟨ends.keys.length == probed.length && committed.keys.length == probed.length, ends, committed⟩

/-- The responses of one round of the loop. -/
structure Reading where
  list : Option (List PartitionOffset)
  fetch : Option (List PartitionOffset × List PartitionOffset)

def Reading.progress (r : Reading) : OffsetProgress := readOffsetProgress r.list r.fetch

def Reading.passes (r : Reading) : Bool :=
  r.progress.available && offsetsCaughtUp r.progress.ends r.progress.committed

/-- The rounds before the deadline. -/
def waitConsumerCaughtUp (brokers : Bytes) (readings : List Reading) : Except String Unit :=
  if brokers = [] then .error "owned broker probe is required for progress verification"
  else if readings.any Reading.passes then .ok ()
  else .error "consumer progress did not catch up before cleanup"

end Model

section Maps

theorem lookup_record {m : Offsets} {p : PartitionOffset} {k v : ℤ}
    (h : (m.record p).lookup k = some v) :
    m.lookup k = some v ∨ p.errorCode = 0 ∧ p.partition = k ∧ p.offset = v := by
  unfold Offsets.record at h
  split_ifs at h with hcode
  · by_cases hk : k = p.partition
    · subst hk
      rw [AList.lookup_insert, Option.some.injEq] at h
      exact Or.inr ⟨hcode, rfl, h⟩
    · rw [AList.lookup_insert_ne hk] at h
      exact Or.inl h
  · exact Or.inl h

/-- What stands in a map was answered without an error. -/
theorem lookup_foldl_record {ps : List PartitionOffset} {m : Offsets} {k v : ℤ}
    (h : (ps.foldl Offsets.record m).lookup k = some v) :
    m.lookup k = some v ∨ ∃ p ∈ ps, p.errorCode = 0 ∧ p.partition = k ∧ p.offset = v := by
  induction ps generalizing m with
  | nil => exact Or.inl h
  | cons p ps ih =>
    rcases ih h with h | ⟨q, hq, hrest⟩
    · rcases lookup_record h with h | h
      · exact Or.inl h
      · exact Or.inr ⟨p, List.mem_cons_self, h⟩
    · exact Or.inr ⟨q, List.mem_cons_of_mem p hq, hrest⟩

/-- A map with as many of the probed partitions as there are has them all. -/
theorem mem_of_probed {m : Offsets} (hkeys : ∀ k ∈ m, k ∈ probed)
    (hlen : m.keys.length = probed.length) {k : ℤ} (hk : k ∈ probed) : k ∈ m := by
  have hsub : m.keys.Subperm probed := m.keys_nodup.subperm fun k hk => hkeys k hk
  exact (hsub.perm_of_length_le hlen.ge).mem_iff.mpr hk

theorem caughtUp_cases {ends committed : Offsets} (h : offsetsCaughtUp ends committed = true)
    {p e : ℤ} (he : ends.lookup p = some e) :
    0 ≤ e ∧ (e = 0 ∨ committed.lookup p = some e) := by
  rw [offsetsCaughtUp, Bool.and_eq_true, List.all_eq_true] at h
  have hentry := h.2 ⟨p, e⟩ (AList.mem_lookup_iff.mp he)
  dsimp only at hentry
  split_ifs at hentry with hneg
  refine ⟨by omega, ?_⟩
  split at hentry
  · exact Or.inl (beq_iff_eq.mp hentry)
  next offset hoffset =>
    rw [Bool.or_eq_true, Bool.and_eq_true, beq_iff_eq, beq_iff_eq, beq_iff_eq] at hentry
    rcases hentry with ⟨hzero, -⟩ | heq
    · exact Or.inl hzero
    · exact Or.inr (by rw [hoffset, heq])

end Maps

section Readings

/-- All partitions of both responses. -/
def Reading.answers (r : Reading) : List PartitionOffset :=
  r.list.getD [] ++ r.fetch.elim [] fun f => f.1 ++ f.2

/-- The partitions of the second response. -/
def Reading.fetched (r : Reading) : List PartitionOffset := r.fetch.elim [] fun f => f.1 ++ f.2

/-- The ends as positions of the group. -/
def Reading.ends (r : Reading) (p : ℕ) : ℕ := ((r.progress.ends.lookup (p : ℤ)).getD 0).toNat

/-- `OffsetFetch` of a partition. -/
def position (committed : Option ℕ) : ℤ := committed.elim (-1) fun n => n

variable {r : Reading}

theorem lookup_ends {k v : ℤ} (h : r.progress.ends.lookup k = some v) :
    ∃ p ∈ r.list.getD [], p.errorCode = 0 ∧ p.partition = k ∧ p.offset = v := by
  rcases lookup_foldl_record h with h | h
  · rw [AList.lookup_empty] at h
    cases h
  · exact h

theorem lookup_committed {k v : ℤ} (h : r.progress.committed.lookup k = some v) :
    ∃ p ∈ r.fetched, p.errorCode = 0 ∧ p.partition = k ∧ p.offset = v := by
  obtain ⟨list, fetch⟩ := r
  cases fetch with
  | none =>
    change (∅ : Offsets).lookup k = some v at h
    rw [AList.lookup_empty] at h
    cases h
  | some f =>
    change (f.2.foldl Offsets.record (f.1.foldl Offsets.record ∅)).lookup k = some v at h
    rw [← List.foldl_append] at h
    rcases lookup_foldl_record h with h | h
    · rw [AList.lookup_empty] at h
      cases h
    · exact h

/-- A reading that passes has, for every partition, an end and the same committed position, or an
empty partition. -/
theorem passes_cases (h : r.passes = true) (hprobed : ∀ p ∈ r.answers, p.partition ∈ probed)
    {k : ℤ} (hk : k ∈ probed) : ∃ p ∈ r.list.getD [], p.errorCode = 0 ∧ p.partition = k ∧
      0 ≤ p.offset ∧ (p.offset = 0 ∨
        ∃ q ∈ r.fetched, q.errorCode = 0 ∧ q.partition = k ∧ q.offset = p.offset) := by
  rw [Reading.passes, Bool.and_eq_true] at h
  obtain ⟨havailable, hcaught⟩ := h
  have hlen : r.progress.ends.keys.length = probed.length := by
    unfold Reading.progress readOffsetProgress at havailable
    rw [Bool.and_eq_true, beq_iff_eq] at havailable
    exact havailable.1
  have hkeys : ∀ k ∈ r.progress.ends, k ∈ probed := by
    intro k hk
    obtain ⟨v, hv⟩ := Option.isSome_iff_exists.mp (AList.lookup_isSome.mpr hk)
    obtain ⟨p, hp, -, rfl, -⟩ := lookup_ends hv
    exact hprobed p (List.mem_append_left _ hp)
  obtain ⟨e, he⟩ := Option.isSome_iff_exists.mp
    (AList.lookup_isSome.mpr (mem_of_probed hkeys hlen hk))
  obtain ⟨hnonneg, hcases⟩ := caughtUp_cases hcaught he
  obtain ⟨p, hp, hcode, hpart, rfl⟩ := lookup_ends he
  refine ⟨p, hp, hcode, hpart, hnonneg, hcases.imp id fun hcommitted => ?_⟩
  exact lookup_committed hcommitted

end Readings

/-- Both records of the first partition are committed; the other partitions are empty. -/
def twoCommitted : Reading where
  list := some [⟨0, 0, 2⟩, ⟨1, 0, 0⟩, ⟨2, 0, 0⟩]
  fetch := some ([⟨0, 0, 2⟩, ⟨1, 0, -1⟩, ⟨2, 0, -1⟩], [])

section Handled
variable (U : UUID.Codec) (config : ReaderConfig) (log : Log)

/-- The broker answers what it was asked. Ends lie behind all that was produced before the request;
positions are those of worlds on the way, each partition at its own time. -/
structure Reading.Truthful (produced : Set Record) (table : List Row) (w : World) (r : Reading) :
    Prop where
  probed : ∀ p ∈ r.answers, p.partition ∈ probed
  ends : ∀ p ∈ r.list.getD [], p.errorCode = 0 → ∀ m ∈ produced, (m.partition : ℤ) = p.partition →
    (m.offset : ℤ) < p.offset
  committed : ∀ p ∈ r.fetched, p.errorCode = 0 → ∃ v, Reachable U config log table v ∧
    Relation.ReflTransGen (Step U config log) v w ∧
    ∀ k : ℕ, (k : ℤ) = p.partition → p.offset = position (v.committed k)

variable {U config log}

theorem handled_run {w w' : World} (h : Relation.ReflTransGen (Step U config log) w w')
    {m : Record} (hm : Handled U w m) : Handled U w' m := by
  refine Transition.run_invariant (I := fun v => Handled U v m) hm ?_ h
  intro a b ha hs
  cases hs with
  | succeed _ _ _ => exact ha.perform _
  | deliver _ => exact ha.perform _
  | _ => exact ha

/-- When the wait ends without an error, whatever was produced before the round that passed is
stored or quarantined, and stays so. -/
theorem caught_up_is_handled {table : List Row} {w w' : World} {produced : Set Record}
    (brokers : Bytes) (readings : List Reading)
    (hwait : waitConsumerCaughtUp brokers readings = .ok ())
    (htruthful : ∀ r, readings.find? Reading.passes = some r →
      r.Truthful U config log produced table w)
    (hproduced : ∀ m ∈ produced, m ∈ log.records m.partition ∧ m.partition < 3)
    (hrun : Relation.ReflTransGen (Step U config log) w w') :
    ∀ m ∈ produced, Handled U w' m := by
  intro m hm
  have hpass : readings.any Reading.passes = true := by
    unfold waitConsumerCaughtUp at hwait
    split_ifs at hwait with hbrokers hany
    exact hany
  obtain ⟨r, hr⟩ := Option.isSome_iff_exists.mp
    (List.find?_isSome.mpr (List.any_eq_true.mp hpass))
  have hpass := List.find?_some hr
  obtain ⟨hmem, hlt⟩ := hproduced m hm
  have hk : (m.partition : ℤ) ∈ probed := by
    rw [probed]
    simp only [List.mem_cons, List.not_mem_nil, or_false]
    omega
  have htrue := htruthful r hr
  obtain ⟨p, hp, hcode, hpart, hnonneg, hcases⟩ := passes_cases hpass htrue.probed hk
  have hend := htrue.ends p hp hcode m hm hpart.symm
  rcases hcases with hzero | ⟨q, hq, hqcode, hqpart, hqoffset⟩
  · omega
  · obtain ⟨v, hv, hvw, hposition⟩ := htrue.committed q hq hqcode
    have hpos := hposition m.partition hqpart.symm
    have hinv := worldInv_of_reachable hv
    refine handled_run (hvw.trans hrun) (hinv.handled ?_)
    cases hcommitted : v.committed m.partition with
    | none =>
      rw [hcommitted, position, Option.elim_none] at hpos
      omega
    | some n =>
      rw [hcommitted, position, Option.elim_some] at hpos
      exact hinv.committed m.partition n hcommitted m hmem (by omega)

theorem caught_up_is_handled_order : ∃ w,
    Reachable UUID.standard smallConfig twoRecords [] w ∧
    waitConsumerCaughtUp [1] [⟨none, none⟩, twoCommitted] = .ok () ∧
    ∀ m ∈ ({orderSource, poisonSource} : Set Record), Handled UUID.standard w m := by
  obtain ⟨w, hw, hcommitted, -⟩ := run_twoRecords
  have hwait : waitConsumerCaughtUp [1] [⟨none, none⟩, twoCommitted] = .ok () := by decide
  have htruthful : twoCommitted.Truthful UUID.standard smallConfig twoRecords
      {orderSource, poisonSource} [] w := by
    refine ⟨by decide, ?_, ?_⟩
    · intro p hp _ m hm hpart
      have hm0 : m.partition = 0 ∧ m.offset < 2 := by
        rcases hm with rfl | rfl
        · decide
        · decide
      simp only [twoCommitted, Option.getD_some, List.mem_cons, List.not_mem_nil, or_false] at hp
      rcases hp with rfl | rfl | rfl
      · dsimp only
        omega
      · dsimp only at hpart
        omega
      · dsimp only at hpart
        omega
    · intro p hp _
      simp only [twoCommitted, Reading.fetched, Option.elim_some, List.append_nil, List.mem_cons,
        List.not_mem_nil, or_false] at hp
      rcases hp with rfl | rfl | rfl
      · refine ⟨w, hw, .refl, fun k hk => ?_⟩
        obtain rfl : k = 0 := Int.natCast_eq_zero.mp hk
        rw [hcommitted]
        rfl
      · exact ⟨World.start [], .refl, hw, fun k _ => rfl⟩
      · exact ⟨World.start [], .refl, hw, fun k _ => rfl⟩
  refine ⟨w, hw, hwait, ?_⟩
  have hround : ∀ r, [⟨none, none⟩, twoCommitted].find? Reading.passes = some r →
      r.Truthful UUID.standard smallConfig twoRecords {orderSource, poisonSource} [] w := by
    intro r hr
    obtain rfl : twoCommitted = r := Option.some.inj hr
    exact htruthful
  refine caught_up_is_handled [1] _ hwait hround ?_ .refl
  intro m hm
  rcases hm with rfl | rfl
  · exact ⟨List.mem_cons_self, by decide⟩
  · exact ⟨List.mem_cons_of_mem _ List.mem_cons_self, by decide⟩

end Handled

section Cleanup
variable (U : UUID.Codec) (config : ReaderConfig) (log : Log)

/-- A step, or the removal of rows from the table. -/
inductive Upkeep : World → World → Prop
  | step {w w' : World} (h : Step U config log w w') : Upkeep w w'
  | remove {w : World} (keep : Row → Bool) : Upkeep w { w with table := w.table.filter keep }

variable {U config log} {r : Reading} {w w' : World}

/-- From a reading that passes on, a group is past the ends that were read as long as its positions
do not fall behind and no reader or delayed call is concerned with older records. -/
theorem past_of_passes (hpass : r.passes = true)
    (hcommitted : ∀ q ∈ r.fetched, q.errorCode = 0 → ∀ k : ℕ, (k : ℤ) = q.partition →
      q.offset ≤ position (w.committed k))
    (hconsumers : ∀ k c, w.consumers k = some c → c.Past U log r.ends)
    (hinflight : ∀ call ∈ w.inflight, call.Past U log r.ends) : w.Past U log r.ends := by
  refine ⟨fun p => ?_, hconsumers, hinflight⟩
  rw [Reading.passes, Bool.and_eq_true] at hpass
  unfold Reading.ends
  cases he : r.progress.ends.lookup (p : ℤ) with
  | none => exact Nat.zero_le _
  | some e =>
    rw [Option.getD_some]
    obtain ⟨hnonneg, hzero | hlookup⟩ := caughtUp_cases hpass.2 he
    · rw [hzero]
      exact Nat.zero_le _
    · obtain ⟨q, hq, hcode, hpart, hoffset⟩ := lookup_committed hlookup
      have hposition := hcommitted q hq hcode p hpart.symm
      cases hc : w.committed p with
      | none =>
        rw [hc, position, Option.elim_none] at hposition
        omega
      | some n =>
        rw [hc, position, Option.elim_some] at hposition
        rw [Option.getD_some]
        omega

theorem Upkeep.past {ends : ℕ → ℕ} (h : w.Past U log ends) (hs : Upkeep U config log w w') :
    w'.Past U log ends := by
  cases hs with
  | step hs => exact h.step hs
  | remove keep => exact ⟨h.committed, h.consumers, h.inflight⟩

theorem Upkeep.newRow {ends : ℕ → ℕ} (h : w.Past U log ends) (hs : Upkeep U config log w w')
    {row : Row} (hrow : row ∈ w'.table) :
    row ∈ w.table ∨ ∃ m, Newer log ends m ∧ rowOf U m = some row := by
  cases hs with
  | step hs => exact h.newRow hs hrow
  | remove keep => exact .inl (List.mem_of_mem_filter hrow)

/-- At any time after a reading that passes, once the group is past the ends that were read: a row
that is gone never returns from the log, whatever crashes, is assigned anew or is removed. What
appears later comes from a record behind the end that was read. -/
theorem removed_rows_stay_removed (hpass : r.passes = true) {v : World}
    (hcommitted : ∀ q ∈ r.fetched, q.errorCode = 0 → ∀ k : ℕ, (k : ℤ) = q.partition →
      q.offset ≤ position (v.committed k))
    (hconsumers : ∀ k c, v.consumers k = some c → c.Past U log r.ends)
    (hinflight : ∀ call ∈ v.inflight, call.Past U log r.ends)
    (hbefore : Relation.ReflTransGen (Upkeep U config log) v w)
    (hafter : Relation.ReflTransGen (Upkeep U config log) w w') :
    ∀ row ∈ w'.table, row ∈ w.table ∨ ∃ m, Newer log r.ends m ∧ rowOf U m = some row := by
  have hpast : w.Past U log r.ends := Transition.run_invariant
    (past_of_passes hpass hcommitted hconsumers hinflight) (fun _ _ h hs => hs.past h) hbefore
  have hinv := Transition.run_invariant (I := fun u => u.Past U log r.ends ∧
    ∀ row ∈ u.table, row ∈ w.table ∨ ∃ m, Newer log r.ends m ∧ rowOf U m = some row)
    ⟨hpast, fun row hrow => Or.inl hrow⟩ ?_ hafter
  · exact hinv.2
  · rintro a b ⟨ha, hrows⟩ hs
    refine ⟨hs.past ha, fun row hrow => ?_⟩
    rcases hs.newRow ha hrow with hold | hnew
    · exact hrows row hold
    · exact Or.inr hnew

end Cleanup

def laterSource : Record := { repeatedSource with offset := 2 }

/-- A record that was produced after the reading. -/
def threeRecords : Log where
  records p := if p = 0 then [orderSource, poisonSource, laterSource] else []
  sorted p := by split_ifs <;> simp [orderSource, poisonSource, laterSource]
  partition p r hr := by
    split_ifs at hr with hp
    · simp only [List.mem_cons, List.not_mem_nil, or_false] at hr
      rcases hr with rfl | rfl | rfl <;>
        simp [orderSource, poisonSource, laterSource, repeatedSource, hp]
    · cases hr

def laterSegment : Segment := ⟨[], [repeatedEnvelope], [laterSource]⟩

/-- Both records before the end were committed. A reader is about to write the later one, and an
earlier attempt to do so is on its way. -/
def committedWorld : World :=
  ⟨fun p => if p = 0 then some 2 else none, [Row.ofEnvelope orderEnvelope], [[orderSource]],
    [quarantined poisonSource (invalid "invalid event JSON or field")],
    [.write [repeatedEnvelope] [laterSource]],
    fun k => if k = 0 then some ⟨.write ⟨[], [], false⟩ laterSegment .done 1,
      fun p => if p = 0 then some 3 else none⟩ else none⟩

theorem removed_rows_stay_removed_later : ∃ w w',
    Relation.ReflTransGen (Upkeep UUID.standard smallConfig threeRecords) committedWorld w ∧
    Relation.ReflTransGen (Upkeep UUID.standard smallConfig threeRecords) w w' ∧
    w.table = [] ∧ w'.table = [Row.ofEnvelope repeatedEnvelope] ∧
    ∀ row ∈ w'.table, row ∈ w.table ∨ ∃ m, Newer threeRecords twoCommitted.ends m ∧
      rowOf UUID.standard m = some row := by
  have hends : twoCommitted.ends 0 = 2 := by decide
  have hlater : Newer threeRecords twoCommitted.ends laterSource := by
    refine ⟨List.mem_cons_of_mem _ (List.mem_cons_of_mem _ List.mem_cons_self), ?_⟩
    change twoCommitted.ends 0 ≤ 2
    rw [hends]
  have hbuffered : laterSegment.Buffered UUID.standard := .cons decode_repeated .nil
  have hbefore : Relation.ReflTransGen (Upkeep UUID.standard smallConfig threeRecords)
      committedWorld { committedWorld with table := [] } := .single (.remove fun _ => false)
  have hwrite : Upkeep UUID.standard smallConfig threeRecords
      { committedWorld with table := [] } _ :=
    .step (.succeed (k := 0) (s := .commit ⟨[], [], false⟩ laterSegment .done) rfl rfl rfl)
  have hdeliver := (Relation.ReflTransGen.single hwrite).tail
    (.step (.deliver (a := []) (b := []) rfl))
  refine ⟨_, _, hbefore, hdeliver, rfl, by decide +kernel, removed_rows_stay_removed
    (r := twoCommitted) (by decide) ?_ ?_ ?_ hbefore hdeliver⟩
  · intro q hq _ k hk
    simp only [twoCommitted, Reading.fetched, Option.elim_some, List.append_nil, List.mem_cons,
      List.not_mem_nil, or_false] at hq
    rcases hq with rfl | rfl | rfl
    · dsimp only at hk
      obtain rfl : k = 0 := by omega
      exact le_rfl
    · dsimp only at hk
      obtain rfl : k = 1 := by omega
      exact le_rfl
    · dsimp only at hk
      obtain rfl : k = 2 := by omega
      exact le_rfl
  · intro k c hc
    by_cases hk : k = 0
    · subst hk
      cases hc
      refine ⟨fun p n hn => ?_, List.forall_mem_singleton.mpr hlater, hbuffered, rfl⟩
      change (if p = 0 then some 3 else none) = some n at hn
      by_cases hp : p = 0
      · subst hp
        cases hn
        rw [hends]
        decide
      · rw [if_neg hp] at hn
        cases hn
    · simp only [committedWorld, if_neg hk, reduceCtorEq] at hc
  · intro call hcall
    rw [List.mem_singleton.mp hcall]
    exact ⟨hbuffered, List.forall_mem_singleton.mpr hlater⟩

end IngestKit.Benchmark
