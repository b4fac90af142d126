import IngestKit.Messaging.Safety

/-! When a record blocks its partition: a reader whose calls succeed gets to the end of the log
exactly if the quarantine topic takes the documents of the refused records. -/
namespace IngestKit.Messaging
open Event Persistence

section Pieces
variable {U : UUID.Codec} {config : ReaderConfig} {log : Log} {takes : QuarantinedRecord → Prop}
  {k : ℕ}

/-- The positions after a commit of these records. -/
def commitTo (records : List Record) (committed : ℕ → Option ℕ) : ℕ → Option ℕ :=
  match records.getLast? with
  | none => committed
  | some r => Function.update committed r.partition (some (r.offset + 1))

/-- What a call does to the positions. -/
def Call.positions (committed : ℕ → Option ℕ) : Call → ℕ → Option ℕ
  | .commit records => commitTo records committed
  | _ => committed

theorem committed_perform (w : World) (call : Call) :
    (w.perform call).committed = call.positions w.committed := by
  cases call with
  | commit records =>
    rw [World.perform, Call.positions, commitTo]
    cases records.getLast? with
    | none => rfl
    | some r => rfl
  | _ => rfl

theorem committed_foldl (calls : List Call) (w : World) :
    (calls.foldl World.perform w).committed = calls.foldl Call.positions w.committed := by
  induction calls generalizing w with
  | nil => rfl
  | cons call calls ih => rw [List.foldl_cons, ih, committed_perform, List.foldl_cons]

/-- The calls that a flush of the segment makes. -/
def Segment.calls (s : Segment) : List Call :=
  if s.source = [] then [] else [.write s.valid s.source, .commit s.source]

theorem positions_calls (s : Segment) (committed : ℕ → Option ℕ) :
    s.calls.foldl Call.positions committed = commitTo s.source committed := by
  unfold Segment.calls
  split
  next h =>
    rw [h]
    rfl
  next => rfl

/-- What is buffered is written and committed before the reader goes on. -/
theorem reaches_flush {c : Cycle} {s : Segment} {a : After} (hb : s.Buffered U) :
    Reaches U config log takes k (.flush c s a) (resume c ⟨s.rest, [], []⟩ a) s.calls := by
  obtain ⟨rest, valid, source⟩ := s
  cases source with
  | nil =>
    obtain rfl : valid = [] := List.forall₂_nil_right_iff.mp hb
    exact reaches_advance (a := .tau) rfl (by simp) rfl
  | cons r rs =>
    have hflush : Reaches U config log takes k (.flush c ⟨rest, valid, r :: rs⟩ a)
        (.persist c ⟨rest, valid, r :: rs⟩ a config.backoffMin) [] :=
      reaches_advance (a := .tau) rfl (by simp) rfl
    have hpersist : Reaches U config log takes k
        (.persist c ⟨rest, valid, r :: rs⟩ a config.backoffMin)
        (.write c ⟨rest, valid, r :: rs⟩ a config.backoffMin) [] :=
      reaches_advance (a := .flag false) rfl (by simp) rfl
    have hwrite : Reaches U config log takes k
        (.write c ⟨rest, valid, r :: rs⟩ a config.backoffMin)
        (.commit c ⟨rest, valid, r :: rs⟩ a) [.write valid (r :: rs)] :=
      reaches_call _ rfl rfl (by simp)
    have hcommit : Reaches U config log takes k (.commit c ⟨rest, valid, r :: rs⟩ a)
        (resume c ⟨rest, [], []⟩ a) [.commit (r :: rs)] :=
      reaches_call _ rfl rfl (by simp)
    exact ((hflush.trans hpersist).trans hwrite).trans hcommit

/-- Within a partition only the last commit counts. -/
theorem commitTo_append {a b : List Record} {p : ℕ} (h : ∀ r ∈ a ++ b, r.partition = p) :
    commitTo (a ++ b) = commitTo b ∘ commitTo a := by
  funext committed
  unfold commitTo
  rw [Function.comp_apply, List.getLast?_append]
  cases hb : b.getLast? with
  | none => rw [Option.none_or]
  | some r =>
    rw [Option.some_or]
    cases ha : a.getLast? with
    | none => rfl
    | some r' =>
      have hr := h r (List.mem_append_right a (List.mem_of_getLast? hb))
      have hr' := h r' (List.mem_append_left b (List.mem_of_getLast? ha))
      dsimp only
      rw [hr, hr', Function.update_idem]

/-- The broker takes the documents of those records that are refused. -/
def Takes (U : UUID.Codec) (takes : QuarantinedRecord → Prop) (records : List Record) : Prop :=
  ∀ r ∈ records, ∀ cause, decodeEnvelope U r.value = .error cause → takes (quarantined r cause)

/-- The cycle is still on when the next record is looked at. -/
theorem reaches_visit (c : Cycle) (s : Segment) (rec : Record) (rest : List Record)
    (h : s.rest = rec :: rest) :
    Reaches U config log takes k (.record c s) (visit U config c s rec rest) [] := by
  obtain ⟨_, valid, source⟩ := s
  cases h
  exact reaches_advance (a := .flag false) rfl (by simp) rfl

/-- A refused record is quarantined after what is buffered, and committed by itself. -/
theorem reaches_poison {c : Cycle} {rec : Record} {rest : List Record} {valid : List Envelope}
    {source : List Record} {cause : Error} (hb : (⟨rest, valid, source⟩ : Segment).Buffered U)
    (hdecode : decodeEnvelope U rec.value = .error cause) (htakes : takes (quarantined rec cause)) :
    Reaches U config log takes k (.record c ⟨rec :: rest, valid, source⟩)
      (.record c ⟨rest, [], []⟩)
      (Segment.calls ⟨rest, valid, source⟩ ++ [.quarantine rec cause, .commit [rec]]) := by
  have hvisit : Reaches U config log takes k (.record c ⟨rec :: rest, valid, source⟩) _ [] :=
    reaches_visit c _ rec rest rfl
  rw [visit, hdecode] at hvisit
  have hflush : Reaches U config log takes k (.flush c ⟨rest, valid, source⟩ (.poison rec cause))
      (.quarantine c ⟨rest, [], []⟩ rec cause) (Segment.calls ⟨rest, valid, source⟩) :=
    reaches_flush hb
  have hcopy : Reaches U config log takes k (.quarantine c ⟨rest, [], []⟩ rec cause)
      (.commitPoison c ⟨rest, [], []⟩ rec) [.quarantine rec cause] := by
    refine reaches_call _ rfl rfl fun rec' cause' he => ?_
    cases he
    exact htakes
  have hcommit : Reaches U config log takes k (.commitPoison c ⟨rest, [], []⟩ rec)
      (.record c ⟨rest, [], []⟩) [.commit [rec]] := reaches_call _ rfl rfl (by simp)
  exact (hvisit.trans hflush).trans (hcopy.trans hcommit)

/-- The record loop gets to its end, whatever the records hold. -/
theorem reaches_records {c : Cycle} {p : ℕ} (rest : List Record) (htakes : Takes U takes rest) :
    ∀ (valid : List Envelope) (source : List Record),
      (⟨rest, valid, source⟩ : Segment).Buffered U → (∀ r ∈ source ++ rest, r.partition = p) →
      ∃ calls, Reaches U config log takes k (.record c ⟨rest, valid, source⟩) (.each c) calls ∧
        ∀ committed, calls.foldl Call.positions committed =
          commitTo (source ++ rest) committed := by
  induction rest with
  | nil =>
    intro valid source hb _
    have hflush : Reaches U config log takes k (.record c ⟨[], valid, source⟩)
        (.flush c ⟨[], valid, source⟩ .done) [] := reaches_advance (a := .tau) rfl (by simp) rfl
    refine ⟨_, hflush.trans (reaches_flush hb), fun committed => ?_⟩
    rw [List.nil_append, positions_calls, List.append_nil]
  | cons rec rest ih =>
    intro valid source hb hp
    have hih := ih fun r hr => htakes r (List.mem_cons_of_mem _ hr)
    obtain ⟨calls, hrest, hcalls⟩ := hih [] [] .nil fun r hr =>
      hp r (List.mem_append_right _ (List.mem_cons_of_mem _ hr))
    have hsplit : commitTo (source ++ rec :: rest) =
        commitTo rest ∘ commitTo (source ++ [rec]) := by
      rw [← commitTo_append (p := p), List.append_assoc, List.singleton_append]
      rw [List.append_assoc, List.singleton_append]
      exact hp
    cases hdecode : decodeEnvelope U rec.value with
    | error cause =>
      have hpoison : Reaches U config log takes k (.record c ⟨rec :: rest, valid, source⟩) _ _ :=
        reaches_poison hb hdecode (htakes rec List.mem_cons_self cause hdecode)
      have hone : commitTo (source ++ [rec]) = commitTo [rec] ∘ commitTo source :=
        commitTo_append fun r hr => hp r (by
          rcases List.mem_append.mp hr with hr | hr
          · exact List.mem_append_left _ hr
          · rw [List.mem_singleton.mp hr]
            exact List.mem_append_right _ List.mem_cons_self)
      refine ⟨_, hpoison.trans hrest, fun committed => ?_⟩
      simp only [List.nil_append, List.foldl_append, positions_calls, hcalls, hsplit, hone,
        List.foldl_cons, List.foldl_nil, Call.positions, Function.comp_apply]
    | ok e =>
      have hvisit : Reaches U config log takes k (.record c ⟨rec :: rest, valid, source⟩) _ [] :=
        reaches_visit c _ rec rest rfl
      have hb' : (⟨rest, valid ++ [e], source ++ [rec]⟩ : Segment).Buffered U :=
        List.rel_append hb (.cons hdecode .nil)
      rw [visit, hdecode] at hvisit
      dsimp only at hvisit
      split_ifs at hvisit
      · have hflush : Reaches U config log takes k
            (.flush c ⟨rest, valid ++ [e], source ++ [rec]⟩ .next) (.record c ⟨rest, [], []⟩)
            (Segment.calls ⟨rest, valid ++ [e], source ++ [rec]⟩) := reaches_flush hb'
        refine ⟨_, (hvisit.trans hflush).trans hrest, fun committed => ?_⟩
        rw [List.nil_append, List.foldl_append, positions_calls, hcalls, hsplit]
        rfl
      · obtain ⟨calls', hloop, hcalls'⟩ := hih (valid ++ [e]) (source ++ [rec]) hb' (by
          rw [List.append_assoc, List.singleton_append]
          exact hp)
        refine ⟨_, hvisit.trans hloop, fun committed => ?_⟩
        rw [List.nil_append, hcalls', List.append_assoc, List.singleton_append]

/-- One turn of `Run`: from a poll that brings a chunk of a partition to the next poll. -/
theorem reaches_turn {p : ℕ} (chunk : List Record) (htakes : Takes U takes chunk)
    (hpartition : ∀ r ∈ chunk, r.partition = p) :
    ∃ calls, Reaches U config log takes k (.polled ⟨[chunk], []⟩) .poll calls ∧
      ∀ committed, calls.foldl Call.positions committed = commitTo chunk committed := by
  have heach : Reaches U config log takes k (.polled ⟨[chunk], []⟩) (.each ⟨[chunk], [], false⟩)
      [] := reaches_advance (a := .flag false) rfl (by simp) rfl
  have hchunk : ∃ calls, Reaches U config log takes k (.each ⟨[chunk], [], false⟩)
      (.each ⟨[], [], false⟩) calls ∧
      ∀ committed, calls.foldl Call.positions committed = commitTo chunk committed := by
    cases chunk with
    | nil => exact ⟨[], reaches_advance (a := .tau) rfl (by simp) rfl, fun _ => rfl⟩
    | cons r rs =>
      have hrecord : Reaches U config log takes k (.each ⟨[r :: rs], [], false⟩)
          (.record ⟨[], [], false⟩ ⟨r :: rs, [], []⟩) [] :=
        reaches_advance (a := .tau) rfl (by simp) rfl
      obtain ⟨calls, hloop, hcalls⟩ :=
        reaches_records (p := p) (r :: rs) htakes [] [] .nil hpartition
      exact ⟨_, hrecord.trans hloop, hcalls⟩
  obtain ⟨calls, hloop, hcalls⟩ := hchunk
  have herrors : Reaches U config log takes k (.each ⟨[], [], false⟩)
      (.errors ⟨[], [], false⟩) [] :=
    reaches_advance (a := .tau) rfl (by simp) rfl
  have hfinish : Reaches U config log takes k (.errors ⟨[], [], false⟩) .finish [] :=
    reaches_advance (a := .tau) rfl (by simp) rfl
  have hrelease : Reaches U config log takes k .finish (.release none) [] :=
    reaches_advance (a := .flag false) rfl (by simp) rfl
  have hafter : Reaches U config log takes k (.release none) .stopAfter [] :=
    reaches_advance (a := .tau) rfl (by simp) rfl
  have hhead : Reaches U config log takes k .stopAfter .head [] :=
    reaches_advance (a := .flag false) rfl (by simp) rfl
  have hbefore : Reaches U config log takes k .head .stopBefore [] :=
    reaches_advance (a := .flag false) rfl (by simp) rfl
  have hpoll : Reaches U config log takes k .stopBefore .poll [] :=
    reaches_advance (a := .flag false) rfl (by simp) rfl
  have hrest := ((((((heach.trans hloop).trans herrors).trans hfinish).trans hrelease).trans
    hafter).trans hhead).trans (hbefore.trans hpoll)
  simp only [List.append_nil, List.nil_append] at hrest
  exact ⟨calls, hrest, hcalls⟩

end Pieces

section Partitions
variable {U : UUID.Codec} {config : ReaderConfig} {log : Log} {takes : QuarantinedRecord → Prop}

/-- The group committed every record of the partition. -/
def World.Consumed (log : Log) (p : ℕ) (w : World) : Prop :=
  ∀ r ∈ log.records p, ∃ n, w.committed p = some n ∧ r.offset < n

/-- Sorted by their offsets, the records behind one of them are those that follow it. -/
theorem filter_behind {before after : List Record} {r : Record}
    (h : (before ++ r :: after).Pairwise fun a b => a.offset < b.offset) :
    (before ++ r :: after).filter (fun x => r.offset + 1 ≤ x.offset) = after := by
  obtain ⟨-, hrest, hbefore⟩ := List.pairwise_append.mp h
  have hafter := (List.pairwise_cons.mp hrest).1
  have hnone : before.filter (fun x => r.offset + 1 ≤ x.offset) = [] := by
    rw [List.filter_eq_nil_iff]
    intro x hx
    have hlt := hbefore x hx r List.mem_cons_self
    simp only [decide_eq_true_eq]
    omega
  have hall : after.filter (fun x => r.offset + 1 ≤ x.offset) = after :=
    List.filter_eq_self.mpr fun x hx => decide_eq_true (hafter x hx)
  rw [List.filter_append, hnone, List.nil_append, List.filter_cons_of_neg (by simp), hall]

/-- The next poll goes on where the last one ended. -/
theorem fetchFrom_nextPosition (p n size : ℕ) :
    log.fetchFrom p (nextPosition n ((log.fetchFrom p n).take size)) =
      (log.fetchFrom p n).drop size := by
  have hsorted : (log.fetchFrom p n).Pairwise fun a b => a.offset < b.offset :=
    (log.sorted p).filter _
  unfold nextPosition
  cases hlast : ((log.fetchFrom p n).take size).getLast? with
  | none =>
    rw [List.getLast?_eq_none_iff, List.take_eq_nil_iff] at hlast
    rcases hlast with rfl | hnil
    · rfl
    · rw [hnil, List.drop_nil]
  | some l =>
    obtain ⟨ys, hys⟩ := List.getLast?_eq_some_iff.mp hlast
    have hmem : l ∈ log.fetchFrom p n := List.mem_of_mem_take (List.mem_of_getLast? hlast)
    have hl : n ≤ l.offset := decide_eq_true_iff.mp (List.mem_filter.mp hmem).2
    have hfilter : log.fetchFrom p (l.offset + 1) =
        (log.fetchFrom p n).filter fun r => l.offset + 1 ≤ r.offset := by
      unfold Log.fetchFrom
      rw [List.filter_filter]
      refine List.filter_congr fun r _ => ?_
      by_cases hle : l.offset + 1 ≤ r.offset
      · have hn : n ≤ r.offset := by omega
        simp [hle, hn]
      · simp [hle]
    have hsplit : ys ++ l :: (log.fetchFrom p n).drop size = log.fetchFrom p n := by
      rw [← List.singleton_append, ← List.append_assoc, ← hys, List.take_append_drop]
    rw [← hsplit] at hsorted
    have hbehind := filter_behind hsorted
    rw [hsplit] at hbehind
    exact hfilter.trans hbehind

/-- A reader at its poll reads the rest of its partition, one batch after the other. -/
theorem run_polls (hsize : 1 ≤ config.batchSize) {p k : ℕ} (m : ℕ) :
    ∀ (n : ℕ) (next : ℕ → Option ℕ) (w : World), (log.fetchFrom p n).length ≤ m →
      next p = some n → Takes U takes (log.fetchFrom p n) →
      ∃ w', Relation.ReflTransGen (Accepting U config log takes)
          (w.setConsumer k (some ⟨.poll, next⟩)) w' ∧
        w'.committed = commitTo (log.fetchFrom p n) w.committed := by
  induction m with
  | zero =>
    intro n next w hm _ _
    rw [List.eq_nil_of_length_eq_zero (Nat.le_zero.mp hm)]
    exact ⟨_, .refl, rfl⟩
  | succ m ih =>
    intro n next w hm hnext htakes
    by_cases hnil : log.fetchFrom p n = []
    · rw [hnil]
      exact ⟨_, .refl, rfl⟩
    have hpartition : ∀ r ∈ log.fetchFrom p n, r.partition = p :=
      fun r hr => log.partition p r (List.mem_of_mem_filter hr)
    obtain ⟨size, hbatch⟩ : ∃ size : ℕ, config.batchSize = size + 1 :=
      ⟨(config.batchSize - 1).toNat, by omega⟩
    have hpolled : Polled log next [(log.fetchFrom p n).take (size + 1)] _ :=
      .chunk (size + 1) hnext (.nil _)
    have hb : (([(log.fetchFrom p n).take (size + 1)] : List (List Record)).flatten.length : ℤ) ≤
        config.batchSize := by
      have hle := List.length_take_le (size + 1) (log.fetchFrom p n)
      simp only [List.flatten_cons, List.flatten_nil, List.append_nil]
      omega
    obtain ⟨calls, hturn, hcalls⟩ := reaches_turn (U := U) (k := k) (p := p)
      ((log.fetchFrom p n).take (size + 1)) (fun r hr => htakes r (List.mem_of_mem_take hr))
      fun r hr => hpartition r (List.mem_of_mem_take hr)
    have hdrop : (log.fetchFrom p n).drop (size + 1) =
        log.fetchFrom p (nextPosition n ((log.fetchFrom p n).take (size + 1))) :=
      (fetchFrom_nextPosition p n (size + 1)).symm
    obtain ⟨w', hrun, hcommitted⟩ := ih (nextPosition n ((log.fetchFrom p n).take (size + 1))) _
      (calls.foldl World.perform w) (by
        have hpos := List.length_pos_of_ne_nil hnil
        rw [← hdrop, List.length_drop]
        omega) (Function.update_self _ _ _) (by
        rw [← hdrop]
        exact fun r hr => htakes r (List.mem_of_mem_drop hr))
    refine ⟨w', .head (accepting_poll (f := ⟨_, []⟩) hpolled hb) ((hturn w _).trans hrun), ?_⟩
    rw [hcommitted, committed_foldl, hcalls, ← hdrop]
    have hall : ∀ r ∈ (log.fetchFrom p n).take (size + 1) ++ (log.fetchFrom p n).drop (size + 1),
        r.partition = p := by
      rw [List.take_append_drop]
      exact hpartition
    exact (congrFun (commitTo_append hall) w.committed).symm.trans (by rw [List.take_append_drop])

/-- A reader that is started anew and assigned one partition reads it to its end. -/
theorem run_partition (hsize : 1 ≤ config.batchSize) (w : World) (p : ℕ)
    (htakes : Takes U takes (log.records p)) :
    ∃ w', Relation.ReflTransGen (Accepting U config log takes) w w' ∧
      w'.committed = commitTo (log.fetchFrom p ((w.committed p).getD 0)) w.committed := by
  obtain ⟨w', hrun, hcommitted⟩ := run_polls hsize (k := 0) _ ((w.committed p).getD 0) _ w le_rfl
    (Function.update_self _ _ _) fun r hr => htakes r (List.mem_of_mem_filter hr)
  exact ⟨w', (run_start w 0 p).trans hrun, hcommitted⟩

/-- The last record that is fetched ends the partition. -/
theorem offset_le_last {p n : ℕ} {l : Record} (hlast : (log.fetchFrom p n).getLast? = some l) :
    ∀ r ∈ log.records p, r.offset ≤ l.offset := by
  intro r hr
  have hl := List.mem_filter.mp (List.mem_of_getLast? hlast)
  have hn := decide_eq_true_iff.mp hl.2
  by_cases hle : n ≤ r.offset
  · have hmem : r ∈ log.fetchFrom p n := List.mem_filter.mpr ⟨hr, decide_eq_true hle⟩
    obtain ⟨ys, hys⟩ := List.getLast?_eq_some_iff.mp hlast
    have hsorted : (log.fetchFrom p n).Pairwise fun a b => a.offset < b.offset :=
      (log.sorted p).filter _
    rw [hys] at hsorted hmem
    rcases List.mem_append.mp hmem with hy | hy
    · exact ((List.pairwise_append.mp hsorted).2.2 r hy l (List.mem_singleton_self l)).le
    · rw [List.mem_singleton.mp hy]
  · omega

theorem consumed_commitTo {committed : ℕ → Option ℕ} {p : ℕ} :
    ∀ r ∈ log.records p, ∃ n,
      commitTo (log.fetchFrom p ((committed p).getD 0)) committed p = some n ∧ r.offset < n := by
  intro r hr
  unfold commitTo
  cases hlast : (log.fetchFrom p ((committed p).getD 0)).getLast? with
  | none =>
    rw [List.getLast?_eq_none_iff] at hlast
    have hbelow : ¬(committed p).getD 0 ≤ r.offset := by
      intro hle
      have hmem : r ∈ log.fetchFrom p ((committed p).getD 0) :=
        List.mem_filter.mpr ⟨hr, decide_eq_true hle⟩
      rw [hlast] at hmem
      cases hmem
    cases hcommitted : committed p with
    | none =>
      rw [hcommitted] at hbelow
      exact absurd (Nat.zero_le _) hbelow
    | some n =>
      rw [hcommitted, Option.getD_some] at hbelow
      exact ⟨n, hcommitted, by omega⟩
  | some l =>
    have hpart := log.partition p l (List.mem_of_mem_filter (List.mem_of_getLast? hlast))
    have hle := offset_le_last hlast r hr
    dsimp only
    rw [hpart, Function.update_self]
    exact ⟨l.offset + 1, rfl, by omega⟩

theorem commitTo_of_ne {p q n : ℕ} (h : q ≠ p) (committed : ℕ → Option ℕ) :
    commitTo (log.fetchFrom p n) committed q = committed q := by
  unfold commitTo
  cases hlast : (log.fetchFrom p n).getLast? with
  | none => rfl
  | some l =>
    have hpart := log.partition p l (List.mem_of_mem_filter (List.mem_of_getLast? hlast))
    dsimp only
    rw [hpart, Function.update_of_ne h]

/-- One partition after the other. -/
theorem run_partitions (hsize : 1 ≤ config.batchSize) (ps : List ℕ)
    (htakes : ∀ p ∈ ps, Takes U takes (log.records p)) (w : World) :
    ∃ w', Relation.ReflTransGen (Accepting U config log takes) w w' ∧
      (∀ p ∈ ps, w'.Consumed log p) ∧ ∀ p, w.Consumed log p → w'.Consumed log p := by
  induction ps generalizing w with
  | nil => exact ⟨w, .refl, by simp, fun _ => id⟩
  | cons p ps ih =>
    rw [List.forall_mem_cons] at htakes
    obtain ⟨w₁, hrun, hcommitted⟩ := run_partition hsize w p htakes.1
    obtain ⟨w₂, hrun', hps, hkeep⟩ := ih htakes.2 w₁
    have hp : w₁.Consumed log p := by
      unfold World.Consumed
      rw [hcommitted]
      exact consumed_commitTo
    refine ⟨w₂, hrun.trans hrun', List.forall_mem_cons.mpr ⟨hkeep p hp, hps⟩, fun q hq => ?_⟩
    by_cases hqp : q = p
    · rw [hqp]
      exact hkeep p hp
    · refine hkeep q fun r hr => ?_
      rw [hcommitted, commitTo_of_ne hqp]
      exact hq r hr

theorem steps_of_accepting {w w' : World}
    (h : Relation.ReflTransGen (Accepting U config log takes) w w') :
    Relation.ReflTransGen (Step U config log) w w' :=
  h.lift id fun _ _ hs => hs.1

end Partitions

end IngestKit.Messaging
