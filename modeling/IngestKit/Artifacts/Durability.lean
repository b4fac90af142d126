import IngestKit.Artifacts.Publication

/-! What survives a power failure: a journal that was written, and every artifact of its directory
that was written before it. -/
namespace IngestKit.Artifacts
open Durable

variable {Z : Platform} {w w' : World} {c : Call} {i j k n : ℕ} {dir : Bytes}

theorem Inv.run (h : Inv Z w) (hrun : Relation.ReflTransGen (World.Next Z) w w') : Inv Z w' :=
  Transition.run_invariant h (fun _ _ => Inv.next) hrun

/-- The name leads to what the file holds, or to a journal that was published later. -/
def World.Shown (Z : Platform) (w : World) (i : ℕ) (n : Name) : Prop :=
  ∃ j c, w.Replaces i j ∧ w.files[j]? = some c ∧ c.target = n ∧
    w.disk.read n = some (c.content Z)

theorem World.Flushed.shown (h : w.Flushed i) (hinv : Inv Z w) (hfile : w.files[i]? = some c) :
    w.Shown Z i c.target :=
  hinv.read_current hfile h.current

theorem World.Flushed.steps (h : w.Flushed i) (hinv : Inv Z w) (hfile : w.files[i]? = some c)
    (hrun : Relation.ReflTransGen (World.Step Z) w w') : w'.Shown Z i c.target := by
  have hall := Transition.run_invariant
    (I := fun v => Inv Z v ∧ v.Flushed i ∧ v.files[i]? = some c) ⟨hinv, h, hfile⟩
    (fun _ _ hv hs => ⟨hv.1.step hs, hv.2.1.keeps (hv.1.keeps hs), (hv.1.keeps hs).file hv.2.2⟩)
    hrun
  exact hall.2.1.shown hall.1 hall.2.2

theorem World.Flushed.run (h : w.Flushed i) (hinv : Inv Z w) (hfile : w.files[i]? = some c)
    (hdir : w.dirs c.dir = .durable) (hrun : Relation.ReflTransGen (World.Next Z) w w') :
    w'.Shown Z i c.target := by
  have hall := Transition.run_invariant
    (I := fun v => Inv Z v ∧ v.Flushed i ∧ v.files[i]? = some c ∧ v.dirs c.dir = .durable)
    ⟨hinv, h, hfile, hdir⟩ ?_ hrun
  · exact hall.2.1.shown hall.1 hall.2.2.1
  · rintro v v' ⟨hv, hflushed, hfile, hdir⟩ hs
    have hgrows := hv.grows hs
    exact ⟨hv.next hs, hflushed.grows hgrows hfile hdir, hgrows.file hfile, hgrows.dirs _ hdir⟩

/-- Where the directory is not durable, a power failure takes the name away. -/
theorem read_lose {dir base : Bytes} (hdir : w.dirs dir ≠ .durable) :
    (w.lose fun _ => true).disk.read (.target dir base) = none := by
  have hlost : (w.lose fun _ => true).dirs dir = .missing := by
    unfold World.lose
    dsimp only
    cases hd : w.dirs dir with
    | missing => rfl
    | fresh => rfl
    | durable => exact absurd hd hdir
  exact read_eq_none (if_pos hlost)

/-- What was synced stays through crashes; through power failures it stays exactly if the directory
is durable. -/
theorem World.Flushed.survives_iff (h : w.Flushed i) (hinv : Inv Z w)
    (hfile : w.files[i]? = some c) :
    (∀ w', Relation.ReflTransGen (World.Step Z) w w' → w'.Shown Z i c.target) ∧
    ((∀ w', Relation.ReflTransGen (World.Next Z) w w' → w'.Shown Z i c.target) ↔
      w.dirs c.dir = .durable) := by
  refine ⟨fun w' hrun => h.steps hinv hfile hrun, fun hall => ?_, fun hdir w' hrun =>
    h.run hinv hfile hdir hrun⟩
  by_contra hdir
  have hfail : World.Next Z w (w.lose fun _ => true) := .inr (powerFailure_lose _)
  obtain ⟨j, c', -, -, -, hread⟩ := hall _ (.single hfail)
  cases (read_lose hdir).symm.trans hread

/-- Once `atomicJSON` returned, its target holds what it wrote, or a journal published later,
through any crash of a process; and through any power failure exactly if the directory, which
`atomicJSON` may have made and whose own entry it never syncs, is durable by then. -/
theorem journal_survives_iff {w₀ : World} (h : Relation.ReflTransGen (World.Next Z) {} w)
    (h₀ : Relation.ReflTransGen (World.Step Z) w w₀) (r : Returned) (hr : r ∈ w₀.returned)
    (hc : r.call.writer = .atomicJSON) (ref : Option ArtifactRef) (hok : r.result = .ok ref)
    (i : ℕ) (hi : r.file = some i) (hsession : w.files.length ≤ i) :
    (∀ w₁, Relation.ReflTransGen (World.Step Z) w₀ w₁ → w₁.Shown Z i r.call.target) ∧
    ((∀ w₁, Relation.ReflTransGen (World.Next Z) w₀ w₁ → w₁.Shown Z i r.call.target) ↔
      w₀.dirs r.call.dir = .durable) := by
  have hs₀ : Session Z w.files.length w₀ :=
    Transition.run_invariant (inv_of_reachable h).session (fun _ _ => Session.step) h₀
  have hfile := ((hs₀.inv.returned r hr).file i hi).1
  exact (hs₀.flushed r hr i ref hi hsession hok hc).survives_iff hs₀.inv hfile

/-- An artifact was written into a new directory. -/
def artifactWritten : World :=
  World.performed samplePlatform {} 0 (sampleCall .writeCompressed false)

theorem run_artifactWritten :
    Relation.ReflTransGen (World.Step samplePlatform) {} artifactWritten :=
  run_call rfl (refusal_sample .writeCompressed false) (bounded_sample .writeCompressed false) rfl

/-- The directory has reached the disk, or not. -/
def directoryKept (kept : Bool) : World :=
  if kept then
    { artifactWritten with dirs := Function.update artifactWritten.dirs [0x6f] .durable }
  else artifactWritten

/-- Then a journal is written there. -/
def journalWritten (kept : Bool) : World :=
  (directoryKept kept).performed samplePlatform 0 (sampleCall .atomicJSON true)

theorem run_journalWritten (kept : Bool) :
    Relation.ReflTransGen (World.Step samplePlatform) artifactWritten (journalWritten kept) := by
  cases kept with
  | true =>
    have hkept : World.Step samplePlatform artifactWritten (directoryKept true) :=
      .settle [0x6f] Presence.noConfusion
    exact (Relation.ReflTransGen.single hkept).trans (run_call rfl
      (refusal_sample .atomicJSON true) (bounded_sample .atomicJSON true) rfl)
  | false =>
    exact run_call rfl (refusal_sample .atomicJSON true) (bounded_sample .atomicJSON true) rfl

theorem journal_mem_journalWritten (kept : Bool) :
    ⟨sampleCall .atomicJSON true, some 1, .ok none⟩ ∈ (journalWritten kept).returned := by
  cases kept <;> exact List.mem_cons_of_mem _ List.mem_cons_self

/-- A journal survives in a directory that was there before, and may be lost with a new one. -/
theorem journal_survives_iff_sample :
    (∀ w₁, Relation.ReflTransGen (World.Next samplePlatform) (journalWritten true) w₁ →
      w₁.Shown samplePlatform 1 (.target [0x6f] [0x62])) ∧
    ¬∀ w₁, Relation.ReflTransGen (World.Next samplePlatform) (journalWritten false) w₁ →
      w₁.Shown samplePlatform 1 (.target [0x6f] [0x62]) := by
  have hsurvives := fun kept => (journal_survives_iff .refl
    (run_artifactWritten.trans (run_journalWritten kept))
    _ (journal_mem_journalWritten kept) rfl none rfl 1 rfl (Nat.zero_le 1)).2
  exact ⟨(hsurvives true).mpr rfl, fun hall => by cases (hsurvives false).mp hall⟩

/-- No journal of the directory, with a file from the number on, has synced it yet. -/
structure Unsynced (w : World) (dir : Bytes) (n : ℕ) : Prop where
  live : ∀ k c j ref, w.live k = some ⟨c, .opened j (.removing (.ok ref))⟩ → n ≤ j →
    c.writer = .atomicJSON → c.dir ≠ dir
  returned : ∀ r ∈ w.returned, ∀ j ref, r.file = some j → r.result = .ok ref → n ≤ j →
    r.call.writer = .atomicJSON → r.call.dir ≠ dir

theorem Inv.unsynced (h : Inv Z w) : Unsynced w dir w.files.length := by
  constructor
  · intro k c j ref hk hj
    have hlt := h.lt hk
    omega
  · intro r hr j ref hfile _ hj
    have hlt := (List.getElem?_eq_some_iff.mp ((h.returned r hr).file j hfile).1).1
    omega

/-- A journal has synced the directory only if its call was at that step. -/
theorem advance_ok {d d' : Disk Name UInt8} {p : Phase} {a : Answer} {ref : Option ArtifactRef}
    (ha : c.advance i d p a = some (d', .removing (.ok ref))) :
    d' = d.syncDirectory fun n => n.dir = c.dir := by
  unfold Call.advance at ha
  split at ha
  all_goals try cases ha
  · obtain ⟨-, hphase⟩ := Prod.mk.inj (Option.some.inj ha)
    unfold Call.closed at hphase
    cases hc : c.writer with
    | writeCompressed =>
      rw [hc] at hphase
      cases hphase
    | writeJSONArtifact =>
      rw [hc] at hphase
      cases hphase
    | atomicJSON =>
      rw [hc] at hphase
      cases hphase
  · obtain ⟨-, hphase⟩ := Prod.mk.inj (Option.some.inj ha)
    cases hread : d.read (c.temp i) with
    | none =>
      rw [hread] at hphase
      cases hphase
    | some data =>
      rw [hread, Call.readBack] at hphase
      split at hphase
      · cases hphase
      · cases hphase
  · rfl

/-- The step of one call keeps it, unless that call has just synced the directory. -/
theorem Unsynced.of_others {l : Option Live} (h : Unsynced w dir n)
    (hlive : w'.live = Function.update w.live k l)
    (hself : ∀ c j ref, l = some ⟨c, .opened j (.removing (.ok ref))⟩ → n ≤ j →
      c.writer = .atomicJSON → c.dir ≠ dir)
    (hret : ∀ r ∈ w'.returned, r ∈ w.returned ∨ ∀ j ref, r.file = some j → r.result = .ok ref →
      n ≤ j → r.call.writer = .atomicJSON → r.call.dir ≠ dir) : Unsynced w' dir n := by
  constructor
  · intro k' c j ref hk'
    rw [hlive] at hk'
    by_cases hkk : k' = k
    · subst hkk
      rw [Function.update_self] at hk'
      exact hself c j ref hk'
    · rw [Function.update_of_ne hkk] at hk'
      exact h.live k' c j ref hk'
  · intro r hr
    rcases hret r hr with hold | hnew
    · exact h.returned r hold
    · exact hnew

theorem Unsynced.refuse (h : Unsynced w dir n) (k : ℕ) (c : Call) (e : Failure) :
    Unsynced (w.finish k ⟨c, none, .error e⟩) dir n := by
  refine h.of_others (k := k) rfl (fun _ _ _ hl => by cases hl) fun r hr => ?_
  rcases List.mem_append.mp hr with hold | hlast
  · exact .inl hold
  · rw [List.mem_singleton.mp hlast]
    exact .inr fun j ref hj => by cases hj

theorem Unsynced.step {c₀ : Call} (h : Unsynced w dir n) (hi : w.Current i)
    (hfile : w.files[i]? = some c₀) (hdir : c₀.dir = dir) (hs : World.Step Z w w') :
    w'.Flushed i ∨ Unsynced w' dir n := by
  cases hs with
  | start k c hk =>
    exact .inr (h.of_others (k := k) rfl (fun _ _ _ hl => by cases hl) fun r hr => .inl hr)
  | @reject k c e hk he => exact .inr (h.refuse k c e)
  | @makeDirectory k c dirs hk hc hm =>
    exact .inr (h.of_others (k := k) rfl (fun _ _ _ hl => by cases hl) fun r hr => .inl hr)
  | @abandon k c hk => exact .inr (h.refuse k c .system)
  | @create k c hk hc =>
    exact .inr (h.of_others (k := k) rfl (fun _ _ _ hl => by cases hl) fun r hr => .inl hr)
  | @advance k c j p p' d a hk ha =>
    by_cases hsync : (∃ ref, p' = .removing (.ok ref)) ∧ c.dir = dir
    · obtain ⟨⟨ref, rfl⟩, hc⟩ := hsync
      refine .inl ?_
      rw [advance_ok ha]
      apply hi.flushed
      intro c' hc'
      cases hfile.symm.trans hc'
      exact decide_eq_true (hdir.trans hc.symm)
    · refine .inr (h.of_others (k := k) rfl (fun c' j' ref hl _ _ hc => ?_) fun r hr => .inl hr)
      cases hl
      exact hsync ⟨⟨ref, rfl⟩, hc⟩
  | @publish k c j data d hk hd =>
    refine .inr (h.of_others (k := k) rfl (fun c' j' ref hl _ hc => ?_) fun r hr => .inl hr)
    obtain ⟨hcall, hprogress⟩ := Live.mk.inj (Option.some.inj hl)
    obtain ⟨-, hphase⟩ := Progress.opened.inj hprogress
    rw [Call.published, hcall, hc] at hphase
    cases hphase
  | @remove k c j r removed hk =>
    refine .inr (h.of_others (k := k) rfl (fun _ _ _ hl => by cases hl) fun r' hr => ?_)
    rcases List.mem_append.mp hr with hold | hlast
    · exact .inl hold
    · rw [List.mem_singleton.mp hlast]
      refine .inr fun j' ref hj hok => ?_
      cases hj
      cases hok
      exact h.live k c j ref hk
  | crash k =>
    exact .inr (h.of_others (k := k) rfl (fun _ _ _ hl => by cases hl) fun r hr => .inl hr)
  | settle d hd => exact .inr ⟨h.live, h.returned⟩

/-- An artifact is safe once a later `atomicJSON` in its directory has returned, in a directory
that is durable: through any crash, and then through any power failure, its target holds it, unless
a journal took its name. -/
theorem journaled_artifact_survives_iff {w₀ w₁ : World}
    (h : Relation.ReflTransGen (World.Next Z) {} w)
    (h₀ : Relation.ReflTransGen (World.Step Z) w w₀) (r : Returned) (hr : r ∈ w₀.returned)
    (ref : Option ArtifactRef) (hok : r.result = .ok ref) (i : ℕ) (hi : r.file = some i)
    (hsession : w.files.length ≤ i)
    (h₁ : Relation.ReflTransGen (World.Step Z) w₀ w₁) (r' : Returned) (hr' : r' ∈ w₁.returned)
    (hc' : r'.call.writer = .atomicJSON) (hdir : r'.call.dir = r.call.dir)
    (ref' : Option ArtifactRef) (hok' : r'.result = .ok ref') (i' : ℕ) (hi' : r'.file = some i')
    (hlater : w₀.files.length ≤ i') :
    (∀ w₂, Relation.ReflTransGen (World.Step Z) w₁ w₂ → w₂.Shown Z i r.call.target) ∧
    ((∀ w₂, Relation.ReflTransGen (World.Next Z) w₁ w₂ → w₂.Shown Z i r.call.target) ↔
      w₁.dirs r.call.dir = .durable) := by
  have hs₀ : Session Z w.files.length w₀ :=
    Transition.run_invariant (inv_of_reachable h).session (fun _ _ => Session.step) h₀
  obtain ⟨hfile, hsettled⟩ := (hs₀.inv.returned r hr).file i hi
  rw [hok] at hsettled
  have hstart : Session Z w.files.length w₀ ∧ i ∈ w₀.published ∧ w₀.files[i]? = some r.call ∧
      (w₀.Flushed i ∨ Unsynced w₀ r.call.dir w₀.files.length) :=
    ⟨hs₀, hsettled.1, hfile, .inr hs₀.inv.unsynced⟩
  have hend := Transition.run_invariant
    (I := fun v => Session Z w.files.length v ∧ i ∈ v.published ∧ v.files[i]? = some r.call ∧
      (v.Flushed i ∨ Unsynced v r.call.dir w₀.files.length)) hstart ?_ h₁
  · obtain ⟨hs₁, -, hfile₁, hflushed | hunsynced⟩ := hend
    · exact hflushed.survives_iff hs₁.inv hfile₁
    · exact absurd hdir (hunsynced.returned r' hr' i' ref' hi' hok' hlater hc')
  · rintro a b ⟨hs, hmem, hfile, hstate⟩ hstep
    have hkeeps := hs.inv.keeps hstep
    refine ⟨hs.step hstep, hkeeps.mem hmem, hkeeps.file hfile, ?_⟩
    rcases hstate with hflushed | hunsynced
    · exact .inl (hflushed.keeps hkeeps)
    · exact hunsynced.step (hs.current i hsession hmem) hfile rfl hstep

/-- The artifact that was written before the journal, in either directory. -/
theorem journaled_artifact_survives_iff_sample :
    (∀ w₂, Relation.ReflTransGen (World.Next samplePlatform) (journalWritten true) w₂ →
      w₂.Shown samplePlatform 0 (.target [0x6f] [0x61])) ∧
    ¬∀ w₂, Relation.ReflTransGen (World.Next samplePlatform) (journalWritten false) w₂ →
      w₂.Shown samplePlatform 0 (.target [0x6f] [0x61]) := by
  have hsurvives := fun kept => (journaled_artifact_survives_iff .refl run_artifactWritten
    ⟨sampleCall .writeCompressed false, some 0, _⟩ List.mem_cons_self _ rfl 0 rfl (Nat.zero_le 0)
    (run_journalWritten kept) _ (journal_mem_journalWritten kept) rfl rfl none rfl 1 rfl le_rfl).2
  exact ⟨(hsurvives true).mpr rfl, fun hall => by cases (hsurvives false).mp hall⟩

end IngestKit.Artifacts
