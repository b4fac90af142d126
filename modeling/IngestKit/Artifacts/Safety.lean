import IngestKit.Artifacts.Invariant
import IngestKit.Transition.Runs

/-! Every step and every power failure keeps the invariant. -/
namespace IngestKit.Artifacts
open Durable

variable {Z : Platform} {w w' : World} {c : Call} {i j k : ℕ} {p p' : Phase}
  {d : Disk Name UInt8}

theorem Inv.lt (h : Inv Z w) (hk : w.live k = some ⟨c, .opened i p⟩) : i < w.files.length :=
  (List.getElem?_eq_some_iff.mp (h.live k c i p hk).1).1

/-- Only the file of one call changes, and nobody else has it. -/
structure Local (w w' : World) (k i : ℕ) : Prop extends Keeps w w' where
  others : ∀ k', k' ≠ k → w'.live k' = w.live k'
  held : ∀ k' c p, w.live k' = some ⟨c, .opened i p⟩ → k' = k
  unreturned : ∀ r ∈ w.returned, r.file ≠ some i
  untouched : ∀ j, j ≠ i → w'.disk.files j = w.disk.files j
  unpublished : ∀ j, j ≠ i → j ∈ w'.published → j ∈ w.published

/-- The step of one call keeps what holds of the others. -/
theorem Inv.of_local (h : Inv Z w) (hl : Local w w' k i)
    (hfresh : ∀ j, w'.files.length ≤ j → w'.disk.files j = none)
    (haccepted : ∀ c ∈ w'.files, c.refusal = none)
    (htemps : ∀ x dir n j, some j ∈ w'.disk.values (.temp x dir n) → j = n)
    (hseals : ∀ dir base, w'.disk.Sealed (.target dir base) (w'.Version Z dir base))
    (hbound : ∀ j ∈ w'.published, j < w'.files.length)
    (hlive : ∀ c j p, w'.live k = some ⟨c, .opened j p⟩ →
      j = i ∧ w'.files[j]? = some c ∧ p.Holds Z w' c j)
    (hreturned : ∀ r ∈ w'.returned, r ∈ w.returned ∨
      r.Holds Z w' ∧ (∀ j, r.file = some j → j = i) ∧ w'.live k = none) : Inv Z w' := by
  have hother : ∀ k' c j p, k' ≠ k → w'.live k' = some ⟨c, .opened j p⟩ →
      j ≠ i ∧ w.live k' = some ⟨c, .opened j p⟩ := by
    intro k' c j p hne hk'
    rw [hl.others k' hne] at hk'
    exact ⟨fun hji => hne (hl.held k' c p (hji ▸ hk')), hk'⟩
  constructor
  · exact hfresh
  · exact haccepted
  · exact htemps
  · exact hseals
  · exact hbound
  · intro k' c j p hk'
    by_cases hkk : k' = k
    · exact (hlive c j p (hkk ▸ hk')).2
    · obtain ⟨hji, hold⟩ := hother k' c j p hkk hk'
      obtain ⟨hfile, hp⟩ := h.live k' c j p hold
      exact ⟨hl.file hfile, hp.keeps hl.toKeeps (hl.untouched j hji) (hl.unpublished j hji)⟩
  · intro k₁ k₂ c₁ c₂ j p₁ p₂ h₁ h₂
    by_cases hk₁ : k₁ = k
    · by_cases hk₂ : k₂ = k
      · exact hk₁.trans hk₂.symm
      · exact absurd (hlive c₁ j p₁ (hk₁ ▸ h₁)).1 (hother k₂ c₂ j p₂ hk₂ h₂).1
    · have hold := hother k₁ c₁ j p₁ hk₁ h₁
      by_cases hk₂ : k₂ = k
      · exact absurd (hlive c₂ j p₂ (hk₂ ▸ h₂)).1 hold.1
      · exact h.unique k₁ k₂ c₁ c₂ j p₁ p₂ hold.2 (hother k₂ c₂ j p₂ hk₂ h₂).2
  · intro r hr j hj k' c p hk'
    rcases hreturned r hr with hold | ⟨-, hfile, hnone⟩
    · by_cases hkk : k' = k
      · have hji := (hlive c j p (hkk ▸ hk')).1
        exact hl.unreturned r hold (hji ▸ hj)
      · exact h.gone r hold j hj k' c p (hother k' c j p hkk hk').2
    · have hji := hfile j hj
      by_cases hkk : k' = k
      · rw [hkk, hnone] at hk'
        cases hk'
      · exact (hother k' c j p hkk hk').1 hji
  · intro r hr
    rcases hreturned r hr with hold | ⟨hholds, -, -⟩
    · have hr' := h.returned r hold
      refine ⟨fun j hj => ?_, hr'.opened⟩
      obtain ⟨hfile, hsettled⟩ := hr'.file j hj
      have hji : j ≠ i := fun e => hl.unreturned r hold (e ▸ hj)
      exact ⟨hl.file hfile, hsettled.adds hl.toAdds (hl.unpublished j hji)⟩
    · exact hholds

/-- No entry of a target changes, and no temporary name leads to another file. -/
structure Quiet (d d' : Disk Name UInt8) : Prop where
  entries : ∀ dir base, d'.entries (.target dir base) = d.entries (.target dir base)
  values : ∀ dir base, ∀ v ∈ d'.values (.target dir base), v ∈ d.values (.target dir base)
  temps : ∀ x dir n i, some i ∈ d'.values (.temp x dir n) →
    i = n ∨ some i ∈ d.values (.temp x dir n)

theorem quiet_of_eq {d d' : Disk Name UInt8} (he : d'.entries = d.entries)
    (hv : ∀ n, ∀ v ∈ d'.earlier n, v ∈ d.earlier n) : Quiet d d' := by
  have hvalues : ∀ n, ∀ v ∈ d'.values n, v ∈ d.values n := by
    intro n v hmem
    unfold Disk.values at hmem ⊢
    rw [he] at hmem
    exact List.cons_subset_cons _ (hv n) hmem
  exact ⟨fun _ _ => congrFun he _, fun _ _ => hvalues _, fun x dir n i hi => .inr (hvalues _ _ hi)⟩

theorem quiet_refl : Quiet d d := quiet_of_eq rfl fun _ _ hv => hv

theorem quiet_modify (g : File UInt8 → File UInt8) : Quiet d (d.modify i g) :=
  quiet_of_eq rfl fun _ _ hv => hv

theorem quiet_syncDirectory (inside : Name → Bool) : Quiet d (d.syncDirectory inside) := by
  refine quiet_of_eq rfl ?_
  intro n v hv
  change v ∈ (if inside n then [] else d.earlier n) at hv
  split at hv
  · cases hv
  · exact hv

/-- A change of the entry of a temporary name, to its own file or to none. -/
theorem quiet_setEntry {v : Option ℕ} (c : Call) (hv : ∀ j, v = some j → j = i) :
    Quiet d (d.setEntry (c.temp i) v) := by
  have hne : ∀ dir base, Name.target dir base ≠ c.temp i := fun _ _ => Name.noConfusion
  constructor
  · exact fun dir base => Disk.entries_setEntry_of_ne v (hne dir base)
  · intro dir base u hu
    rwa [Disk.values_setEntry_of_ne v (hne dir base)] at hu
  · intro x dir n j hj
    by_cases hn : Name.temp x dir n = c.temp i
    · have hni : n = i := (Name.temp.inj hn).2.2
      rw [hn, Disk.values_setEntry] at hj
      rcases List.mem_cons.mp hj with heq | hold
      · exact .inl ((hv j heq.symm).trans hni.symm)
      · exact .inr (hn ▸ hold)
    · rw [Disk.values_setEntry_of_ne v hn] at hj
      exact .inr hj

theorem quiet_create (c : Call) (i : ℕ) : Quiet d (d.create (c.temp i) i) := by
  have hentry : Quiet d (d.setEntry (c.temp i) (some i)) :=
    quiet_setEntry c fun j hj => (Option.some.inj hj).symm
  exact ⟨hentry.entries, hentry.values, hentry.temps⟩

theorem quiet_remove (c : Call) (i : ℕ) (removed : Bool) :
    Quiet d (if removed then d.unlink (c.temp i) else d) := by
  split
  · exact quiet_setEntry c fun j hj => by cases hj
  · exact quiet_refl

theorem quiet_advance {a : Answer} {d' : Disk Name UInt8}
    (ha : c.advance i d p a = some (d', p')) : Quiet d d' := by
  unfold Call.advance at ha
  split at ha
  all_goals cases ha
  all_goals first
    | exact quiet_refl
    | exact quiet_modify _
    | exact quiet_syncDirectory _

theorem Quiet.keeps (hq : Quiet w.disk w'.disk) (hf : ∃ m, w'.files = w.files ++ m)
    (hp : w'.published = w.published)
    (hd : ∀ dir, w.dirs dir = .durable → w'.dirs dir = .durable) : Keeps w w' where
  files := hf
  published := ⟨[], by rw [hp, List.append_nil]⟩
  dirs := hd
  values dir base v hv := .inl (hq.values dir base v hv)
  entry dir base := .inl (hq.entries dir base)

theorem keeps_of_eq (hd : w'.disk = w.disk) (hf : w'.files = w.files)
    (hp : w'.published = w.published)
    (hdirs : ∀ dir, w.dirs dir = .durable → w'.dirs dir = .durable) : Keeps w w' := by
  refine Quiet.keeps ?_ ⟨[], by rw [hf, List.append_nil]⟩ hp hdirs
  rw [hd]
  exact quiet_refl

theorem Quiet.temps' (hq : Quiet w.disk d) (h : Inv Z w) (x : Writer) (dir : Bytes) (n j : ℕ)
    (hj : some j ∈ d.values (.temp x dir n)) : j = n := by
  rcases hq.temps x dir n j hj with heq | hold
  · exact heq
  · exact h.temps x dir n j hold

theorem others_update {l : Option Live} (k' : ℕ) (hne : k' ≠ k) :
    Function.update w.live k l k' = w.live k' :=
  Function.update_of_ne hne _ _

/-- Nothing happens to the files. -/
theorem Inv.idle (h : Inv Z w) (hd : w'.disk = w.disk) (hf : w'.files = w.files)
    (hp : w'.published = w.published)
    (hdirs : w'.dirs = w.dirs) (hothers : ∀ k', k' ≠ k → w'.live k' = w.live k')
    (hlive : ∀ c j p, w'.live k ≠ some ⟨c, .opened j p⟩)
    (hret : ∀ r ∈ w'.returned, r ∈ w.returned ∨
      r.Holds Z w' ∧ r.file = none ∧ w'.live k = none) : Inv Z w' := by
  have hkeeps := keeps_of_eq hd hf hp fun dir hdir => by rw [hdirs, hdir]
  have hlocal : Local w w' k w.files.length := by
    refine ⟨hkeeps, hothers, ?_, ?_, ?_, ?_⟩
    · intro k' c p hk'
      exact absurd (h.lt hk') (lt_irrefl _)
    · intro r hr hfile
      have hlt := (List.getElem?_eq_some_iff.mp ((h.returned r hr).file _ hfile).1).1
      exact lt_irrefl _ hlt
    · exact fun j _ => by rw [hd]
    · exact fun j _ hj => by rwa [hp] at hj
  apply h.of_local hlocal
  · rw [hd, hf]
    exact h.fresh
  · rw [hf]
    exact h.accepted
  · rw [hd]
    exact h.temps
  · intro dir base
    rw [hd]
    exact (h.seals dir base).mono fun j bs hv => hv.adds hkeeps.toAdds
  · rw [hp, hf]
    exact h.bound
  · exact fun c j p hk' => absurd hk' (hlive c j p)
  · intro r hr
    rcases hret r hr with hold | ⟨hholds, hfile, hnone⟩
    · exact .inl hold
    · refine .inr ⟨hholds, fun j hj => ?_, hnone⟩
      rw [hfile] at hj
      cases hj

/-- The call changes its own file, which no target may lead to. -/
theorem Inv.act (h : Inv Z w) (hk : w.live k = some ⟨c, .opened i p⟩) (hq : Quiet w.disk d)
    (huntouched : ∀ j, j ≠ i → d.files j = w.disk.files j)
    (hseals : ∀ dir base, d.Sealed (.target dir base) (w.Version Z dir base))
    (hholds : p'.Holds Z { w.setLive k (some ⟨c, .opened i p'⟩) with disk := d } c i) :
    Inv Z { w.setLive k (some ⟨c, .opened i p'⟩) with disk := d } := by
  have hlt := h.lt hk
  have hkeeps : Keeps w { w.setLive k (some ⟨c, .opened i p'⟩) with disk := d } :=
    hq.keeps ⟨[], (List.append_nil _).symm⟩ rfl fun _ hdir => hdir
  have hlocal : Local w { w.setLive k (some ⟨c, .opened i p'⟩) with disk := d } k i := by
    refine ⟨hkeeps, fun k' hne => others_update k' hne, ?_, ?_, huntouched, fun _ _ hj => hj⟩
    · exact fun k' c' p'' hk' => h.unique k' k c' c i p'' p hk' hk
    · exact fun r hr hfile => h.gone r hr i hfile k c p hk
  apply h.of_local hlocal
  · intro j hj
    have hne : j ≠ i := fun e => absurd hlt (not_lt.mpr (e ▸ hj))
    exact (huntouched j hne).trans (h.fresh j hj)
  · exact h.accepted
  · exact hq.temps' h
  · exact fun dir base => (hseals dir base).mono fun j bs hv => hv.adds hkeeps.toAdds
  · exact h.bound
  · intro c' j p'' hk'
    have hself : Function.update w.live k (some (Live.mk c (.opened i p'))) k =
      some ⟨c', .opened j p''⟩ := hk'
    rw [Function.update_self] at hself
    cases hself
    exact ⟨rfl, (h.live k c i p hk).1, hholds⟩
  · exact fun r hr => .inl hr

theorem Inv.not_mem_values (h : Inv Z w) (hi : i ∉ w.published) (dir base : Bytes) :
    some i ∉ w.disk.values (.target dir base) := by
  intro hmem
  obtain ⟨f, -, -, hv⟩ := h.seals dir base i hmem
  exact hi hv.1

/-- The disk stays as it is. -/
theorem Inv.stay (h : Inv Z w) (hk : w.live k = some ⟨c, .opened i p⟩) (hholds : p'.Holds Z w c i) :
    Inv Z { w.setLive k (some ⟨c, .opened i p'⟩) with disk := w.disk } :=
  h.act hk quiet_refl (fun _ _ => rfl) h.seals hholds

theorem Call.content_eq_raw (h : c.writer ≠ .writeCompressed) : c.content Z = c.raw := by
  unfold Call.content
  cases hc : c.writer with
  | writeCompressed => exact absurd hc h
  | writeJSONArtifact => rfl
  | atomicJSON => rfl

theorem Call.bounded_of_refusal (h : c.refusal = none) (hc : c.writer ≠ .writeCompressed) :
    c.Bounded Z := by
  intro hne
  rw [Call.content_eq_raw hc]
  unfold Call.refusal at h
  cases hw : c.writer with
  | writeCompressed => exact absurd hw hc
  | writeJSONArtifact =>
    rw [hw] at h
    by_contra hlong
    rw [if_pos (not_le.mp hlong)] at h
    cases h
  | atomicJSON => exact absurd hw hne

theorem Call.closed_holds (haccepted : c.refusal = none) (hi : i ∉ w.published)
    (hcomplete : w.Complete Z c i) : c.closed.Holds Z w c i := by
  unfold Call.closed
  cases hc : c.writer with
  | writeCompressed => exact ⟨hi, hcomplete⟩
  | writeJSONArtifact =>
    have hne : c.writer ≠ .writeCompressed := by rw [hc]; decide
    exact ⟨hi, hcomplete, (Call.content_eq_raw hne).symm, Call.bounded_of_refusal haccepted hne⟩
  | atomicJSON =>
    have hne : c.writer ≠ .writeCompressed := by rw [hc]; decide
    exact ⟨hi, hcomplete, (Call.content_eq_raw hne).symm, Call.bounded_of_refusal haccepted hne⟩

/-- Only its own file can be read back under a temporary name. -/
theorem Inv.read_temp (h : Inv Z w) (hcomplete : w.Complete Z c i) {data : Bytes}
    (hr : w.disk.read (c.temp i) = some data) : data = c.content Z := by
  obtain ⟨j, f, hj, hf, hdata⟩ := Disk.read_eq_some_iff.mp hr
  have hji : j = i := h.temps c.writer c.dir i j (hj ▸ Disk.entries_mem_values)
  obtain ⟨f', hf', -, hcontent⟩ := hcomplete
  rw [hji, hf'] at hf
  cases hf
  exact hdata.symm.trans hcontent

/-- A call that failed before it published. -/
theorem removing_error (e : Failure) (hi : i ∉ w.published) :
    Phase.Holds Z w c i (.removing (.error e)) :=
  ⟨fun _ => hi, fun _ hok => by cases hok⟩

theorem Inv.readBack_holds (h : Inv Z w) (hi : i ∉ w.published) (hcomplete : w.Complete Z c i) :
    (Call.readBack (w.disk.read (c.temp i))).Holds Z w c i := by
  cases hr : w.disk.read (c.temp i) with
  | none => exact removing_error _ hi
  | some data =>
    unfold Call.readBack
    dsimp only
    split
    · exact removing_error _ hi
    · rename_i hle
      have hdata := h.read_temp hcomplete hr
      exact ⟨hi, hcomplete, hdata, fun _ => hdata ▸ not_lt.mp hle⟩

/-- A sync of its directory leaves a version no earlier entry. -/
theorem World.Current.flushed (hc : w.Current i) {inside : Name → Bool} {l : Option Live}
    (hin : ∀ c, w.files[i]? = some c → inside c.target = true) :
    { w.setLive k l with disk := w.disk.syncDirectory inside }.Flushed i := by
  obtain ⟨c, j, hfile, hentry, hij⟩ := hc
  refine ⟨c, hfile, fun v hv => ⟨j, ?_, hij⟩⟩
  have hvalues : (w.disk.syncDirectory inside).values c.target = [some j] := by
    change w.disk.entries c.target :: (if inside c.target then [] else _) = _
    rw [hentry, if_pos (hin c hfile)]
  exact List.mem_singleton.mp (hvalues ▸ hv)

theorem Inv.advance (h : Inv Z w) (hk : w.live k = some ⟨c, .opened i p⟩) {a : Answer}
    (ha : c.advance i w.disk p a = some (d, p')) :
    Inv Z { w.setLive k (some ⟨c, .opened i p'⟩) with disk := d } := by
  obtain ⟨hfile, hp⟩ := h.live k c i p hk
  have haccepted := h.accepted c (List.mem_of_getElem? hfile)
  unfold Call.advance at ha
  split at ha
  all_goals cases ha
  · rename_i rest n
    obtain ⟨hi, f, hf, hrest⟩ := hp
    apply h.act hk (quiet_modify _)
    · exact fun j hj => Disk.files_modify_of_ne _ hj
    · exact fun dir base => (h.seals dir base).append (h.not_mem_values hi dir base) _
    · refine ⟨hi, _, Disk.files_modify _ hf, ?_⟩
      rw [List.append_assoc, List.take_append_drop, hrest]
  · obtain ⟨hi, f, hf, hrest⟩ := hp
    exact h.stay hk ⟨hi, fun _ => ⟨f, hf, (List.append_nil _).symm.trans hrest⟩⟩
  · exact h.stay hk ⟨hp.1, fun hfalse => by cases hfalse⟩
  · rename_i failed
    apply h.act hk (quiet_modify _)
    · exact fun j hj => Disk.files_modify_of_ne _ hj
    · exact fun dir base => (h.seals dir base).sync i
    · refine ⟨hp.1, fun hfailed => ?_⟩
      obtain ⟨f, hf, hcontent⟩ := hp.2 hfailed
      exact ⟨_, Disk.files_modify _ hf, rfl, hcontent⟩
  · exact h.stay hk ⟨hp.1, fun hfalse => by cases hfalse⟩
  · exact h.stay hk (Call.closed_holds haccepted hp.1 (hp.2 rfl))
  · exact h.stay hk (removing_error _ hp.1)
  · exact h.stay hk (removing_error _ hp.1)
  · exact h.stay hk (h.readBack_holds hp.1 hp.2)
  · exact h.stay hk (removing_error _ hp.1)
  · exact h.stay hk (removing_error _ hp.1)
  · obtain ⟨hc, hcurrent⟩ := hp
    apply h.act hk (quiet_syncDirectory _) (fun _ _ => rfl)
    · exact fun dir base => (h.seals dir base).syncDirectory _
    · refine ⟨⟨?_, ?_, fun hne => absurd hc hne⟩, fun _ _ _ => hcurrent.flushed ?_⟩
      · exact hcurrent.mem
      · unfold Call.reference
        rw [hc]
      · intro c' hc'
        cases hfile.symm.trans hc'
        exact decide_eq_true rfl
  · exact h.stay hk ⟨fun hne => absurd hp.1 hne, fun _ hok => by cases hok⟩

/-- A publication leads its target to the file of the call, and changes no other target. -/
theorem Inv.publish_disk (h : Inv Z w) (hi : i ∉ w.published) (hd : c.publish i w.disk = some d) :
    Quiet (w.disk.setEntry c.target (some i)) d ∧ d.files = w.disk.files := by
  have htemp : ∀ j, w.disk.entries (c.temp i) = some j → j = i := fun j hj =>
    h.temps c.writer c.dir i j (hj ▸ Disk.entries_mem_values)
  have hlink : ∀ {d}, w.disk.link (c.temp i) c.target = some d →
      Quiet (w.disk.setEntry c.target (some i)) d ∧ d.files = w.disk.files := by
    intro d hlink
    obtain ⟨j, hj, -, rfl⟩ := Disk.link_eq_some_iff.mp hlink
    rw [htemp j hj]
    exact ⟨quiet_refl, rfl⟩
  unfold Call.publish at hd
  cases hc : c.writer with
  | writeCompressed =>
    rw [hc] at hd
    exact hlink hd
  | writeJSONArtifact =>
    rw [hc] at hd
    exact hlink hd
  | atomicJSON =>
    rw [hc] at hd
    obtain ⟨j, hj, hcase⟩ := Disk.rename_eq_some hd
    cases htemp j hj
    rcases hcase with hsame | rfl
    · exact absurd (hsame ▸ Disk.entries_mem_values) (h.not_mem_values hi c.dir c.base)
    · exact ⟨quiet_setEntry c (fun j hj => by cases hj), rfl⟩

theorem target_ne {dir base : Bytes} (h : ¬(dir = c.dir ∧ base = c.base)) :
    Name.target dir base ≠ c.target := by
  intro he
  exact h (Name.target.inj he)

/-- An artifact never takes the place of anything. -/
theorem publish_free (hd : c.publish i w.disk = some d) :
    w.disk.entries c.target = none ∨ c.writer = .atomicJSON := by
  have hlink : w.disk.link (c.temp i) c.target = some d → w.disk.entries c.target = none := by
    intro hlink
    obtain ⟨j, -, hfree, -⟩ := Disk.link_eq_some_iff.mp hlink
    exact hfree
  unfold Call.publish at hd
  cases hc : c.writer with
  | writeCompressed =>
    rw [hc] at hd
    exact .inl (hlink hd)
  | writeJSONArtifact =>
    rw [hc] at hd
    exact .inl (hlink hd)
  | atomicJSON => exact .inr rfl

theorem keeps_publish (hfile : w.files[i]? = some c) (hi : i ∉ w.published)
    (hfree : w.disk.entries c.target = none ∨ c.writer = .atomicJSON)
    (hq : Quiet (w.disk.setEntry c.target (some i)) d) (l : Option Live) :
    Keeps w { w.setLive k l with disk := d, published := w.published ++ [i] } := by
  have hnew : w.Publishes { w.setLive k l with disk := d, published := w.published ++ [i] }
      c.target i :=
    ⟨List.mem_append_right _ List.mem_cons_self, hi, hfree.imp_right fun hc => ⟨c, hfile, hc⟩⟩
  refine ⟨⟨⟨[], (List.append_nil _).symm⟩, ⟨[i], rfl⟩, fun _ hdir => hdir⟩, ?_, ?_⟩
  · intro dir base v hv
    have hv' := hq.values dir base v hv
    by_cases ht : dir = c.dir ∧ base = c.base
    · obtain ⟨rfl, rfl⟩ := ht
      change v ∈ (w.disk.setEntry c.target (some i)).values c.target at hv'
      rw [Disk.values_setEntry] at hv'
      rcases List.mem_cons.mp hv' with rfl | hold
      · exact .inr ⟨i, rfl, hnew⟩
      · exact .inl hold
    · rw [Disk.values_setEntry_of_ne _ (target_ne ht)] at hv'
      exact .inl hv'
  · intro dir base
    have he := hq.entries dir base
    by_cases ht : dir = c.dir ∧ base = c.base
    · obtain ⟨rfl, rfl⟩ := ht
      exact .inr ⟨i, he.trans (Disk.entries_setEntry _), hnew⟩
    · exact .inl (he.trans (Disk.entries_setEntry_of_ne _ (target_ne ht)))

theorem Inv.publish (h : Inv Z w) {data : Bytes}
    (hk : w.live k = some ⟨c, .opened i (.publishing data)⟩)
    (hd : c.publish i w.disk = some d) :
    Inv Z { w.setLive k (some ⟨c, .opened i (c.published Z data)⟩) with
      disk := d
      published := w.published ++ [i] } := by
  obtain ⟨hfile, hi, ⟨f, hf, hsync, hcontent⟩, hdata, hbounded⟩ := h.live k c i _ hk
  obtain ⟨hq, hfiles⟩ := h.publish_disk hi hd
  have hlt := h.lt hk
  have hnew : i ∈ w.published ++ [i] := List.mem_append_right _ List.mem_cons_self
  have hkeeps := keeps_publish (k := k) hfile hi (publish_free hd) hq
    (some ⟨c, .opened i (c.published Z data)⟩)
  have hlocal : Local w { w.setLive k (some ⟨c, .opened i (c.published Z data)⟩) with
      disk := d
      published := w.published ++ [i] } k i := by
    refine ⟨hkeeps, fun k' hne => others_update k' hne, ?_, ?_, ?_, ?_⟩
    · exact fun k' c' p' hk' => h.unique k' k c' c i p' _ hk' hk
    · exact fun r hr hr' => h.gone r hr i hr' k c _ hk
    · exact fun j _ => congrFun hfiles j
    · intro j hj hmem
      rcases List.mem_append.mp hmem with hold | hlast
      · exact hold
      · exact absurd (List.mem_singleton.mp hlast) hj
  apply h.of_local hlocal
  · exact fun j hj => (congrFun hfiles j).trans (h.fresh j hj)
  · exact h.accepted
  · intro x dir n j hj
    rcases hq.temps x dir n j hj with heq | hold
    · exact heq
    · rw [Disk.values_setEntry_of_ne _ Name.noConfusion] at hold
      exact h.temps x dir n j hold
  · intro dir base
    have hold := (h.seals dir base).mono fun j bs hv => hv.adds hkeeps.toAdds
    refine Disk.Sealed.of_files ?_ (fun j => hq.values dir base (some j)) fun j _ f hf _ => ?_
    · by_cases ht : dir = c.dir ∧ base = c.base
      · obtain ⟨rfl, rfl⟩ := ht
        exact hold.setEntry hf hsync ⟨hnew, c, hfile, rfl, rfl, hcontent, hbounded⟩
      · exact hold.setEntry_of_ne _ (target_ne ht)
    · exact (congrFun hfiles j).trans hf
  · intro j hj
    rcases List.mem_append.mp hj with hold | hlast
    · exact h.bound j hold
    · exact List.mem_singleton.mp hlast ▸ hlt
  · intro c' j p' hk'
    have hself : Function.update w.live k (some (Live.mk c (.opened i (c.published Z data)))) k =
      some ⟨c', .opened j p'⟩ := hk'
    rw [Function.update_self] at hself
    cases hself
    refine ⟨rfl, hfile, ?_⟩
    unfold Call.published
    have hentry : d.entries c.target = some i :=
      (hq.entries c.dir c.base).trans (Disk.entries_setEntry _)
    cases hc : c.writer with
    | writeCompressed =>
      exact ⟨⟨hnew, hdata ▸ rfl, hbounded⟩, fun _ _ he => by cases hc.symm.trans he⟩
    | writeJSONArtifact =>
      exact ⟨⟨hnew, hdata ▸ rfl, hbounded⟩, fun _ _ he => by cases hc.symm.trans he⟩
    | atomicJSON => exact ⟨hc, c, i, hfile, hentry, notBefore_self hnew, .inl rfl⟩
  · exact fun r hr => .inl hr

theorem Inv.create (h : Inv Z w) (hrefusal : c.refusal = none) :
    Inv Z { w.setLive k (some ⟨c, .opened w.files.length (.writing (c.content Z))⟩) with
      disk := w.disk.create (c.temp w.files.length) w.files.length
      files := w.files ++ [c] } := by
  have hq := quiet_create (d := w.disk) c w.files.length
  have hkeeps : Keeps w
      { w.setLive k (some ⟨c, .opened w.files.length (.writing (c.content Z))⟩) with
        disk := w.disk.create (c.temp w.files.length) w.files.length
        files := w.files ++ [c] } := hq.keeps ⟨[c], rfl⟩ rfl fun _ hdir => hdir
  have huntouched : ∀ j, j ≠ w.files.length →
      (w.disk.create (c.temp w.files.length) w.files.length).files j = w.disk.files j :=
    fun j hj => Function.update_of_ne hj _ _
  have hlocal : Local w
      { w.setLive k (some ⟨c, .opened w.files.length (.writing (c.content Z))⟩) with
        disk := w.disk.create (c.temp w.files.length) w.files.length
        files := w.files ++ [c] } k w.files.length := by
    refine ⟨hkeeps, fun k' hne => others_update k' hne, ?_, ?_, huntouched, fun _ _ hj => hj⟩
    · exact fun k' c' p' hk' => absurd (h.lt hk') (lt_irrefl _)
    · intro r hr hfile
      have hlt := (List.getElem?_eq_some_iff.mp ((h.returned r hr).file _ hfile).1).1
      exact lt_irrefl _ hlt
  apply h.of_local hlocal
  · intro j hj
    have hlen : (w.files ++ [c]).length ≤ j := hj
    rw [List.length_append, List.length_singleton] at hlen
    exact (huntouched j (by omega)).trans (h.fresh j (by omega))
  · intro c' hc'
    rcases List.mem_append.mp hc' with hold | hlast
    · exact h.accepted c' hold
    · exact List.mem_singleton.mp hlast ▸ hrefusal
  · exact hq.temps' h
  · intro dir base
    have hold := (h.seals dir base).mono fun j bs hv => hv.adds hkeeps.toAdds
    exact hold.create Name.noConfusion (h.fresh _ le_rfl)
  · intro j hj
    have hlt := h.bound j hj
    exact hlt.trans_le hkeeps.length_le
  · intro c' j p' hk'
    have hself : Function.update w.live k
      (some (Live.mk c (.opened w.files.length (.writing (c.content Z))))) k =
      some ⟨c', .opened j p'⟩ := hk'
    rw [Function.update_self] at hself
    cases hself
    refine ⟨rfl, List.getElem?_concat_length, ?_, ⟨[], false⟩, Function.update_self _ _ _, rfl⟩
    exact fun hmem => lt_irrefl _ (h.bound _ hmem)
  · exact fun r hr => .inl hr

theorem Inv.remove (h : Inv Z w) {r : Result} (removed : Bool)
    (hk : w.live k = some ⟨c, .opened i (.removing r)⟩) :
    Inv Z { w.finish k ⟨c, some i, r⟩ with
      disk := if removed then w.disk.unlink (c.temp i) else w.disk } := by
  obtain ⟨hfile, hsettled, -⟩ := h.live k c i _ hk
  have hq := quiet_remove (d := w.disk) c i removed
  have hfiles : (if removed then w.disk.unlink (c.temp i) else w.disk).files = w.disk.files := by
    split
    · rfl
    · rfl
  have hkeeps : Keeps w { w.finish k ⟨c, some i, r⟩ with
      disk := if removed then w.disk.unlink (c.temp i) else w.disk } :=
    hq.keeps ⟨[], (List.append_nil _).symm⟩ rfl fun _ hdir => hdir
  have hlocal : Local w { w.finish k ⟨c, some i, r⟩ with
      disk := if removed then w.disk.unlink (c.temp i) else w.disk } k i := by
    refine ⟨hkeeps, fun k' hne => others_update k' hne, ?_, ?_, ?_, fun _ _ hj => hj⟩
    · exact fun k' c' p' hk' => h.unique k' k c' c i p' _ hk' hk
    · exact fun r' hr hr' => h.gone r' hr i hr' k c _ hk
    · exact fun j _ => congrFun hfiles j
  have hnone : Function.update w.live k none k = none := Function.update_self _ _ _
  apply h.of_local hlocal
  · exact fun j hj => (congrFun hfiles j).trans (h.fresh j hj)
  · exact h.accepted
  · exact hq.temps' h
  · intro dir base
    have hold := (h.seals dir base).mono fun j bs hv => hv.adds hkeeps.toAdds
    exact hold.of_files (fun j => hq.values dir base (some j)) fun j _ f hf _ =>
      (congrFun hfiles j).trans hf
  · exact h.bound
  · intro c' j p' hk'
    cases hnone.symm.trans hk'
  · intro r' hr'
    rcases List.mem_append.mp hr' with hold | hlast
    · exact .inl hold
    · refine .inr ?_
      rw [List.mem_singleton.mp hlast]
      refine ⟨⟨fun j hj => ?_, fun _ _ hnone => by cases hnone⟩, fun j hj => ?_, hnone⟩
      · cases hj
        exact ⟨hfile, hsettled.adds hkeeps.toAdds fun hi => hi⟩
      · cases hj
        rfl

theorem Inv.powerFailure (h : Inv Z w) (hf : w.PowerFailure w') : Inv Z w' ∧ Grows w w' := by
  obtain ⟨d, dirs, hdirs, hd, rfl⟩ := hf
  have hkept : ∀ dir, w.dirs dir = .durable → dirs dir = .durable := by
    intro dir hdir
    have hsurvives := hdirs dir
    rwa [hdir] at hsurvives
  have hgrows : Grows w { w with disk := d, dirs := dirs, live := fun _ => none } := by
    refine ⟨⟨⟨[], (List.append_nil _).symm⟩, ⟨[], (List.append_nil _).symm⟩, hkept⟩, ?_⟩
    intro dir base v hv
    cases v with
    | some j => exact .inl (Disk.mem_values_of_powerFailure hd _ j hv)
    | none =>
      by_cases hdir : w.dirs dir = .durable
      · refine .inl ?_
        unfold Disk.values at hv
        rw [hd.earlier] at hv
        have hfound : dirs dir ≠ .missing := by rw [hkept dir hdir]; decide
        exact List.mem_singleton.mp hv ▸ hd.entry (.target dir base) hfound
      · exact .inr (.inr ⟨rfl, hdir⟩)
  refine ⟨?_, hgrows⟩
  constructor
  · exact fun i hi => hd.none i (h.fresh i hi)
  · exact h.accepted
  · exact fun x dir n i hi => h.temps x dir n i (Disk.mem_values_of_powerFailure hd _ i hi)
  · intro dir base
    have hold := (h.seals dir base).mono fun j bs hv => hv.adds hgrows.toAdds
    exact hold.powerFailure hd
  · exact h.bound
  · exact fun k c i p hk => by cases hk
  · exact fun k k' c c' i p p' hk => by cases hk
  · exact fun r hr i hi k c p hk => by cases hk
  · intro r hr
    have hr' := h.returned r hr
    refine ⟨fun i hi => ?_, hr'.opened⟩
    obtain ⟨hfile, hsettled⟩ := hr'.file i hi
    exact ⟨hfile, hsettled.adds hgrows.toAdds fun hi => hi⟩

/-- A call returns an error before it has a file. -/
theorem Inv.refuse (h : Inv Z w) (e : Failure) : Inv Z (w.finish k ⟨c, none, .error e⟩) := by
  have hnone : Function.update w.live k none k = none := Function.update_self _ _ _
  refine h.idle (k := k) rfl rfl rfl rfl (fun k' hne => others_update k' hne) ?_ ?_
  · intro c' j p hk'
    cases hnone.symm.trans hk'
  · intro r hr
    rcases List.mem_append.mp hr with hold | hlast
    · exact .inl hold
    · refine .inr ?_
      rw [List.mem_singleton.mp hlast]
      exact ⟨⟨fun j hj => (by cases hj), fun ref href => (by cases href)⟩, rfl, hnone⟩

theorem durable_of_makes {dir : Bytes} {dirs : Bytes → Presence} (hm : w.Makes dir dirs)
    (other : Bytes) (h : w.dirs other = .durable) : dirs other = .durable := by
  rcases hm.2 other with hsame | hmade
  · rw [hsame, h]
  · rw [hmade, h]
    rfl

theorem durable_of_settle {dir : Bytes} (other : Bytes) (h : w.dirs other = .durable) :
    Function.update w.dirs dir .durable other = .durable := by
  by_cases hother : other = dir
  · rw [hother, Function.update_self]
  · rw [Function.update_of_ne hother, h]

/-- Nothing depends on the directories. -/
theorem Inv.of_dirs (h : Inv Z w) (dirs : Bytes → Presence) : Inv Z { w with dirs := dirs } :=
  ⟨h.fresh, h.accepted, h.temps, h.seals, h.bound, h.live, h.unique, h.gone,
    fun r hr => ⟨(h.returned r hr).file, (h.returned r hr).opened⟩⟩

/-- A call without a file takes a step of its own. -/
theorem Inv.pending {l : Option Live} (h : Inv Z w) (hl : ∀ c j p, l ≠ some ⟨c, .opened j p⟩) :
    Inv Z (w.setLive k l) := by
  refine h.idle (k := k) rfl rfl rfl rfl (fun k' hne => others_update k' hne) ?_
    fun r hr => .inl hr
  intro c' j p hk'
  exact hl c' j p ((Function.update_self k _ w.live).symm.trans hk')

theorem Inv.step (h : Inv Z w) (hs : World.Step Z w w') : Inv Z w' := by
  cases hs with
  | start k c hk => exact h.pending fun _ _ _ hl => by cases hl
  | reject e hk he => exact h.refuse e
  | makeDirectory dirs hk hrefusal hm =>
    exact (h.pending fun _ _ _ hl => by cases hl).of_dirs dirs
  | abandon hk => exact h.refuse .system
  | create hk hrefusal => exact h.create hrefusal
  | advance a hk ha => exact h.advance hk ha
  | publish hk hd => exact h.publish hk hd
  | remove removed hk => exact h.remove removed hk
  | crash k => exact h.pending fun _ _ _ hl => by cases hl
  | settle dir hdir => exact h.of_dirs _

theorem Inv.keeps (h : Inv Z w) (hs : World.Step Z w w') : Keeps w w' := by
  have hnil : ∀ {α : Type} (l : List α), ∃ m, l = l ++ m := fun l => ⟨[], (List.append_nil l).symm⟩
  have hsame : ∀ dir, w.dirs dir = .durable → w.dirs dir = .durable := fun _ hdir => hdir
  cases hs with
  | start => exact keeps_of_eq rfl rfl rfl hsame
  | reject => exact keeps_of_eq rfl rfl rfl hsame
  | makeDirectory dirs hk hrefusal hm => exact keeps_of_eq rfl rfl rfl (durable_of_makes hm)
  | abandon => exact keeps_of_eq rfl rfl rfl hsame
  | create => exact (quiet_create _ _).keeps ⟨_, rfl⟩ rfl hsame
  | advance a hk ha => exact (quiet_advance ha).keeps (hnil _) rfl hsame
  | @publish k c i data d hk hd =>
    obtain ⟨hfile, hi, -⟩ := h.live k c i _ hk
    exact keeps_publish hfile hi (publish_free hd) (h.publish_disk hi hd).1 _
  | remove removed => exact (quiet_remove _ _ removed).keeps (hnil _) rfl hsame
  | crash => exact keeps_of_eq rfl rfl rfl hsame
  | settle dir => exact keeps_of_eq rfl rfl rfl durable_of_settle

theorem Inv.grows (h : Inv Z w) (hn : World.Next Z w w') : Grows w w' := by
  rcases hn with hs | hf
  · exact (h.keeps hs).grows
  · exact (h.powerFailure hf).2

theorem Inv.next (h : Inv Z w) (hn : World.Next Z w w') : Inv Z w' := by
  rcases hn with hs | hf
  · exact h.step hs
  · exact (h.powerFailure hf).1

theorem inv_start : Inv Z {} where
  fresh i _ := rfl
  accepted c hc := by cases hc
  temps x dir n i hi := by cases List.mem_singleton.mp hi
  seals dir base := Disk.sealed_empty
  bound i hi := by cases hi
  live k c i p hk := by cases hk
  unique k k' c c' i p p' hk := by cases hk
  gone r hr := by cases hr
  returned r hr := by cases hr

theorem inv_of_reachable (h : Relation.ReflTransGen (World.Next Z) {} w) : Inv Z w :=
  Transition.run_invariant inv_start (fun _ _ => Inv.next) h

end IngestKit.Artifacts
