import IngestKit.Artifacts.Progress

/-! Publication is atomic: calls at work at the same time leave what they would leave one after
another, and after a crash or a power failure a target is missing or complete. -/
namespace IngestKit.Artifacts
open Durable

variable {Z : Platform} {w w' : World} {c : Call} {i j k : ℕ} {d : Disk Name UInt8}

/-- The files under the names of targets. -/
abbrev Store := Name → Option Bytes

/-- A call as one operation: an artifact needs a free name, a journal replaces what is there. -/
def Call.perform (Z : Platform) (c : Call) (s : Store) : Option Store :=
  if c.writer ≠ .atomicJSON ∧ s c.target ≠ none then none
  else some (Function.update s c.target (some (c.content Z)))

def performAll (Z : Platform) (calls : List Call) : Option Store :=
  calls.foldlM (fun s c => c.perform Z s) fun _ => none

def World.store (w : World) : Store
  | .temp _ _ _ => none
  | .target dir base => w.disk.read (.target dir base)

/-- The calls that took effect, in order. -/
def World.calls (w : World) : List Call := w.published.filterMap (w.files[·]?)

/-- What a target holds only depends on its entry. -/
theorem Inv.read_eq (h : Inv Z w) (h' : Inv Z w') (hg : Adds w w') {dir base : Bytes}
    (he : w'.disk.entries (.target dir base) = w.disk.entries (.target dir base)) :
    w'.disk.read (.target dir base) = w.disk.read (.target dir base) := by
  cases hj : w.disk.entries (.target dir base) with
  | none => rw [read_eq_none hj, read_eq_none (he.trans hj)]
  | some j =>
    obtain ⟨c, hc, -, -, hread⟩ := h.read_target hj
    obtain ⟨c', hc', -, -, hread'⟩ := h'.read_target (he.trans hj)
    cases (hg.file hc).symm.trans hc'
    rw [hread, hread']

theorem Inv.calls_eq (h : Inv Z w) (hg : Adds w w') :
    w.published.filterMap (w'.files[·]?) = w.calls := by
  apply List.filterMap_congr
  intro i hi
  obtain ⟨m, hm⟩ := hg.files
  rw [hm, List.getElem?_append_left (h.bound i hi)]

structure Sequential (Z : Platform) (w : World) : Prop where
  inv : Inv Z w
  performed : performAll Z w.calls = some w.store
  nodup : w.published.Nodup

theorem sequential_start : Sequential Z {} := by
  refine ⟨inv_start, ?_, List.nodup_nil⟩
  have hstore : World.store {} = fun _ => none := by
    funext n
    cases n with
    | temp => rfl
    | target => rfl
  rw [hstore]
  rfl

theorem Sequential.unpublished (h : Sequential Z w) (hs : World.Step Z w w')
    (hp : w'.published = w.published) : Sequential Z w' := by
  have hkeeps := h.inv.keeps hs
  have hinv := h.inv.step hs
  have hstore : w'.store = w.store := by
    funext n
    cases n with
    | temp => rfl
    | target dir base =>
      apply h.inv.read_eq hinv hkeeps.toAdds
      rcases hkeeps.entry dir base with hsame | ⟨j, -, hmem, hnew, -⟩
      · exact hsame
      · exact absurd (hp ▸ hmem) hnew
  refine ⟨hinv, ?_, hp ▸ h.nodup⟩
  have hcalls : w'.calls = w.calls := by
    unfold World.calls
    rw [hp]
    exact h.inv.calls_eq hkeeps.toAdds
  rw [hcalls, hstore]
  exact h.performed

theorem Sequential.publish (h : Sequential Z w) {data : Bytes}
    (hk : w.live k = some ⟨c, .opened i (.publishing data)⟩) (hd : c.publish i w.disk = some d) :
    Sequential Z { w.setLive k (some ⟨c, .opened i (c.published Z data)⟩) with
      disk := d
      published := w.published ++ [i] } := by
  obtain ⟨hfile, hi, -⟩ := h.inv.live k c i _ hk
  obtain ⟨hq, -⟩ := h.inv.publish_disk hi hd
  have hstep := World.Step.publish (Z := Z) hk hd
  have hinv := h.inv.step hstep
  have hadds := (h.inv.keeps hstep).toAdds
  refine ⟨hinv, ?_, ?_⟩
  · have hstore : World.store { w.setLive k (some ⟨c, .opened i (c.published Z data)⟩) with
        disk := d
        published := w.published ++ [i] } =
        Function.update w.store c.target (some (c.content Z)) := by
      funext n
      cases n with
      | temp =>
        rw [Function.update_of_ne Name.noConfusion]
        rfl
      | target dir base =>
        by_cases ht : dir = c.dir ∧ base = c.base
        · obtain ⟨rfl, rfl⟩ := ht
          have he : d.entries c.target = some i :=
            (hq.entries c.dir c.base).trans (Disk.entries_setEntry _)
          obtain ⟨c', hc', -, -, hread⟩ := hinv.read_target he
          cases hfile.symm.trans hc'
          have htarget : Name.target c.dir c.base = c.target := rfl
          rw [htarget, Function.update_self]
          exact hread
        · have he : d.entries (.target dir base) = w.disk.entries (.target dir base) :=
            (hq.entries dir base).trans (Disk.entries_setEntry_of_ne _ (target_ne ht))
          rw [Function.update_of_ne (target_ne ht)]
          exact h.inv.read_eq hinv hadds he
    have hcalls : World.calls { w.setLive k (some ⟨c, .opened i (c.published Z data)⟩) with
        disk := d
        published := w.published ++ [i] } = w.calls ++ [c] := by
      have hlast : [i].filterMap (w.files[·]?) = [c] := List.filterMap_cons_some hfile
      exact List.filterMap_append.trans (congrArg (w.calls ++ ·) hlast)
    have hfree : ¬(c.writer ≠ .atomicJSON ∧ w.store c.target ≠ none) := by
      rintro ⟨hc, hused⟩
      rcases publish_free hd with hnone | hjournal
      · exact hused (read_eq_none hnone)
      · exact hc hjournal
    rw [hcalls, hstore, performAll, List.foldlM_append]
    have hbefore : w.calls.foldlM (fun s c => c.perform Z s) (fun _ => none) = some w.store :=
      h.performed
    rw [hbefore]
    change (c.perform Z w.store >>= fun s => pure s) = _
    rw [bind_pure, Call.perform, if_neg hfree]
  · rw [List.nodup_append]
    refine ⟨h.nodup, List.pairwise_singleton _ i, fun a ha b hb => ?_⟩
    rw [List.mem_singleton.mp hb]
    exact fun he => hi (he ▸ ha)

theorem Sequential.step (h : Sequential Z w) (hs : World.Step Z w w') : Sequential Z w' := by
  cases hs with
  | start k c hk => exact h.unpublished (.start k c hk) rfl
  | reject e hk he => exact h.unpublished (.reject e hk he) rfl
  | makeDirectory dirs hk hc hm => exact h.unpublished (.makeDirectory dirs hk hc hm) rfl
  | abandon hk => exact h.unpublished (.abandon hk) rfl
  | create hk hc => exact h.unpublished (.create hk hc) rfl
  | advance a hk ha => exact h.unpublished (.advance a hk ha) rfl
  | publish hk hd => exact h.publish hk hd
  | remove removed hk => exact h.unpublished (.remove removed hk) rfl
  | crash k => exact h.unpublished (.crash k) rfl
  | settle dir hdir => exact h.unpublished (.settle dir hdir) rfl

theorem sequential_of_reachable (h : Relation.ReflTransGen (World.Step Z) {} w) :
    Sequential Z w :=
  Transition.run_invariant sequential_start (fun _ _ => Sequential.step) h

/-- What is under the name of a target is one whole version of it, whatever crashed before. -/
theorem target_is_complete (h : Relation.ReflTransGen (World.Next Z) {} w) (dir base bytes : Bytes)
    (hr : w.disk.read (.target dir base) = some bytes) :
    ∃ i c, i ∈ w.published ∧ w.files[i]? = some c ∧ c.dir = dir ∧ c.base = base ∧
      bytes = c.content Z ∧ c.refusal = none ∧
      (c.writer ≠ .atomicJSON → bytes.length ≤ maxCompressedArtifact) := by
  have hinv := inv_of_reachable h
  obtain ⟨i, -, hi, c, hc, hdir, hbase, hbytes, hbounded⟩ := (hinv.seals dir base).read hr
  have haccepted := hinv.accepted c (List.mem_of_getElem? hc)
  exact ⟨i, c, hi, hc, hdir, hbase, hbytes, haccepted, hbytes ▸ hbounded⟩

/-- The first name is about to be published when another call writes the second one and returns. -/
def overtaken : World :=
  let first := sampleCall .writeJSONArtifact false
  let opened := World.put {} 0 first (.publishing (first.content samplePlatform))
    (written samplePlatform {} first) []
  opened.performed samplePlatform 1 (sampleCall .writeCompressed true)

theorem run_overtaken : Relation.ReflTransGen (World.Step samplePlatform) {} overtaken := by
  have hopened := leads_publishing (Z := samplePlatform) (w := {}) (k := 0) rfl
    (refusal_sample .writeJSONArtifact false) (bounded_sample .writeJSONArtifact false)
  exact Relation.ReflTransGen.trans hopened (run_call (k := 1) rfl
    (refusal_sample .writeCompressed true) (bounded_sample .writeCompressed true) rfl)

/-- Then the first one publishes, and its process crashes. -/
def interleaved : World :=
  let first := sampleCall .writeJSONArtifact false
  World.setLive { overtaken.setLive 0 (some ⟨first, .opened 0 (first.published samplePlatform
        (first.content samplePlatform))⟩) with
      disk := overtaken.disk.setEntry first.target (some 0)
      published := overtaken.published ++ [0] } 0 none

theorem run_interleaved : Relation.ReflTransGen (World.Step samplePlatform) {} interleaved := by
  have hpublish : World.Step samplePlatform overtaken _ :=
    .publish (k := 0) (c := sampleCall .writeJSONArtifact false) (i := 0) rfl rfl
  exact (run_overtaken.tail hpublish).tail (.crash 0)

theorem target_is_complete_sample :
    ∃ w bytes, Relation.ReflTransGen (World.Next samplePlatform) {} w ∧
      w.disk.read (.target [0x6f] [0x61]) = some bytes ∧
      ∃ i c, i ∈ w.published ∧ w.files[i]? = some c ∧ c.dir = [0x6f] ∧ c.base = [0x61] ∧
        bytes = c.content samplePlatform ∧ c.refusal = none ∧
        (c.writer ≠ .atomicJSON → bytes.length ≤ maxCompressedArtifact) := by
  have hnext := (run_next run_interleaved).tail (.inr (powerFailure_lose fun _ => false))
  exact ⟨_, _, hnext, rfl, target_is_complete hnext _ _ _ rfl⟩

/-- The directory is what the published calls give one at a time; each takes effect at most once,
one that succeeds has taken effect, and a failed artifact has not. -/
theorem directory_is_sequential (h : Relation.ReflTransGen (World.Step Z) {} w) :
    performAll Z w.calls = some w.store ∧ w.published.Nodup ∧
    ∀ r ∈ w.returned,
      (∀ ref, r.result = .ok ref → ref = r.call.reference Z (r.call.content Z) ∧
        ∃ i ∈ w.published, r.file = some i ∧ w.files[i]? = some r.call) ∧
      (∀ e, r.result = .error e → r.call.writer ≠ .atomicJSON →
        ∀ i, r.file = some i → i ∉ w.published) := by
  obtain ⟨hinv, hperformed, hnodup⟩ := sequential_of_reachable h
  refine ⟨hperformed, hnodup, fun r hr => ?_⟩
  have hholds := hinv.returned r hr
  constructor
  · intro ref hok
    obtain ⟨i, hi⟩ := Option.ne_none_iff_exists'.mp (hholds.opened ref hok)
    obtain ⟨hfile, hsettled⟩ := hholds.file i hi
    rw [hok] at hsettled
    exact ⟨hsettled.2.1, i, hsettled.1, hi, hfile⟩
  · intro e herr hc i hi
    obtain ⟨-, hsettled⟩ := hholds.file i hi
    rw [herr] at hsettled
    exact hsettled hc

theorem directory_is_sequential_sample :
    interleaved.returned.length = 1 ∧ interleaved.calls = [sampleCall .writeCompressed true,
      sampleCall .writeJSONArtifact false] ∧
      performAll samplePlatform interleaved.calls = some interleaved.store :=
  ⟨rfl, rfl, (directory_is_sequential run_interleaved).1⟩

end IngestKit.Artifacts
