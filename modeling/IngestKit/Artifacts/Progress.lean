import IngestKit.Artifacts.Safety

/-! Without a power failure a target keeps leading to what was published, and a call that meets no
failure returns. -/
namespace IngestKit.Artifacts
open Durable

variable {Z : Platform} {w w' : World} {c : Call} {i j k n : ℕ} {p p' : Phase}
  {d d' : Disk Name UInt8}

theorem Inv.read_target (h : Inv Z w) {dir base : Bytes}
    (he : w.disk.entries (.target dir base) = some j) :
    ∃ c, w.files[j]? = some c ∧ c.dir = dir ∧ c.base = base ∧
      w.disk.read (.target dir base) = some (c.content Z) := by
  have hmem : some j ∈ w.disk.values (.target dir base) := he ▸ Disk.entries_mem_values
  obtain ⟨f, hf, -, -, c, hc, hdir, hbase, hcontent, -⟩ := h.seals dir base j hmem
  exact ⟨c, hc, hdir, hbase, Disk.read_eq_some_iff.mpr ⟨j, f, he, hf, hcontent⟩⟩

theorem read_eq_none {n : Name} (he : w.disk.entries n = none) : w.disk.read n = none := by
  unfold Disk.read
  rw [he, Option.bind_none]

theorem Inv.read_current (h : Inv Z w) (hfile : w.files[i]? = some c) (hi : w.Current i) :
    ∃ j c', w.Replaces i j ∧ w.files[j]? = some c' ∧ c'.target = c.target ∧
      w.disk.read c.target = some (c'.content Z) := by
  obtain ⟨c₀, j, hc₀, hj, hij⟩ := hi
  cases hfile.symm.trans hc₀
  obtain ⟨c', hc', hdir, hbase, hread⟩ := h.read_target hj
  refine ⟨j, c', hij, hc', ?_, hread⟩
  rw [Call.target, Call.target, hdir, hbase]

/-- What the files of a session, those from a number on, lead to: no power failure came between. -/
structure Session (Z : Platform) (n : ℕ) (w : World) : Prop where
  inv : Inv Z w
  current : ∀ i, n ≤ i → i ∈ w.published → w.Current i
  flushed : ∀ r ∈ w.returned, ∀ i ref, r.file = some i → n ≤ i → r.result = .ok ref →
    r.call.writer = .atomicJSON → w.Flushed i

theorem Inv.session (h : Inv Z w) : Session Z w.files.length w := by
  refine ⟨h, fun i hi hmem => ?_, fun r hr i ref hfile hi => ?_⟩
  · have hlt := h.bound i hmem
    omega
  · have hlt := (List.getElem?_eq_some_iff.mp ((h.returned r hr).file i hfile).1).1
    omega

theorem Session.current_step (h : Session Z n w) (hs : World.Step Z w w') (hi : n ≤ i)
    (hmem : i ∈ w'.published) : w'.Current i := by
  have hkeeps := h.inv.keeps hs
  have hold : i ∈ w.published → w'.Current i := fun hmem => (h.current i hi hmem).keeps hkeeps
  cases hs with
  | start => exact hold hmem
  | reject => exact hold hmem
  | makeDirectory => exact hold hmem
  | abandon => exact hold hmem
  | create => exact hold hmem
  | advance => exact hold hmem
  | @publish k c j data d hk hd =>
    obtain ⟨hfile, hj, -⟩ := h.inv.live k c j _ hk
    rcases List.mem_append.mp hmem with hmem | hlast
    · exact hold hmem
    · have hentry : d.entries c.target = some j :=
        ((h.inv.publish_disk hj hd).1.entries c.dir c.base).trans (Disk.entries_setEntry _)
      rw [List.mem_singleton.mp hlast]
      have hself : j ∈ w.published ++ [j] := List.mem_append_right _ List.mem_cons_self
      exact ⟨c, j, hfile, hentry, notBefore_self hself, .inl rfl⟩
  | remove => exact hold hmem
  | crash => exact hold hmem
  | settle => exact hold hmem

theorem Session.flushed_step (h : Session Z n w) (hs : World.Step Z w w') (r : Returned)
    (hr : r ∈ w'.returned) (ref : Option ArtifactRef) (hfile : r.file = some i) (hi : n ≤ i)
    (hok : r.result = .ok ref) (hc : r.call.writer = .atomicJSON) : w'.Flushed i := by
  have hkeeps := h.inv.keeps hs
  have hold : r ∈ w.returned → w'.Flushed i :=
    fun hr => (h.flushed r hr i ref hfile hi hok hc).keeps hkeeps
  cases hs with
  | start => exact hold hr
  | reject =>
    rcases List.mem_append.mp hr with hr | hlast
    · exact hold hr
    · rw [List.mem_singleton.mp hlast] at hfile
      cases hfile
  | makeDirectory => exact hold hr
  | abandon =>
    rcases List.mem_append.mp hr with hr | hlast
    · exact hold hr
    · rw [List.mem_singleton.mp hlast] at hfile
      cases hfile
  | create => exact hold hr
  | advance => exact hold hr
  | publish => exact hold hr
  | @remove k c j result removed hk =>
    rcases List.mem_append.mp hr with hr | hlast
    · exact hold hr
    · rw [List.mem_singleton.mp hlast] at hfile hok hc
      cases hfile
      obtain ⟨-, -, hflushed⟩ := h.inv.live k c i _ hk
      exact (hflushed ref hok hc).keeps hkeeps
  | crash => exact hold hr
  | settle => exact hold hr

theorem Session.step (h : Session Z n w) (hs : World.Step Z w w') : Session Z n w' where
  inv := h.inv.step hs
  current _ hi hmem := h.current_step hs hi hmem
  flushed r hr _ ref hfile hi hok hc := h.flushed_step hs r hr ref hfile hi hok hc

theorem run_next (h : Relation.ReflTransGen (World.Step Z) w w') :
    Relation.ReflTransGen (World.Next Z) w w' := by
  induction h with
  | refl => exact .refl
  | tail _ hs ih => exact ih.tail (.inl hs)

namespace World

/-- The world in which a new call has come to a phase. -/
def put (w : World) (k : ℕ) (c : Call) (p : Phase) (d : Disk Name UInt8) (published : List ℕ) :
    World :=
  { w with
    disk := d
    dirs := Function.update w.dirs c.dir (w.dirs c.dir).made
    live := Function.update w.live k (some ⟨c, .opened w.files.length p⟩)
    files := w.files ++ [c]
    published := published }

/-- The world in which the call has returned. -/
def done (w : World) (k : ℕ) (c : Call) (r : Result) (d : Disk Name UInt8) : World :=
  { w with
    disk := d.unlink (c.temp w.files.length)
    dirs := Function.update w.dirs c.dir (w.dirs c.dir).made
    live := Function.update w.live k none
    files := w.files ++ [c]
    published := w.published ++ [w.files.length]
    returned := w.returned ++ [⟨c, some w.files.length, r⟩] }

end World

/-- A run leads the call to the phase, with the disk in that state. -/
def Leads (Z : Platform) (w : World) (k : ℕ) (c : Call) (p : Phase) (d : Disk Name UInt8)
    (published : List ℕ) : Prop :=
  Relation.ReflTransGen (World.Step Z) w (w.put k c p d published)

theorem live_put (l : List ℕ) :
    (w.put k c p d l).live k = some ⟨c, .opened w.files.length p⟩ :=
  Function.update_self k _ _

theorem Leads.advance {l : List ℕ} (h : Leads Z w k c p d l) (a : Answer)
    (ha : c.advance w.files.length d p a = some (d', p')) : Leads Z w k c p' d' l := by
  have hstep : World.Step Z (w.put k c p d l) _ := .advance a (live_put l) ha
  have hrun := Relation.ReflTransGen.tail h hstep
  simp only [World.put, World.setLive, Function.update_idem] at hrun
  exact hrun

theorem Leads.publish {data : Bytes} {l : List ℕ} (h : Leads Z w k c (.publishing data) d l)
    (hd : c.publish w.files.length d = some d') :
    Leads Z w k c (c.published Z data) d' (l ++ [w.files.length]) := by
  have hstep : World.Step Z (w.put k c (.publishing data) d l) _ := .publish (live_put l) hd
  have hrun := Relation.ReflTransGen.tail h hstep
  simp only [World.put, World.setLive, Function.update_idem] at hrun
  exact hrun

theorem Leads.returns {r : Result}
    (h : Leads Z w k c (.removing r) d (w.published ++ [w.files.length])) :
    Relation.ReflTransGen (World.Step Z) w (w.done k c r d) := by
  have hstep : World.Step Z (w.put k c (.removing r) d (w.published ++ [w.files.length])) _ :=
    .remove true (live_put _)
  have hdone := h.tail hstep
  simp only [World.put, World.finish, Function.update_idem] at hdone
  exact hdone

theorem leads_create (hk : w.live k = none) (hrefusal : c.refusal = none) :
    Leads Z w k c (.writing (c.content Z))
      (w.disk.create (c.temp w.files.length) w.files.length) w.published := by
  have hmakes : w.Makes c.dir (Function.update w.dirs c.dir (w.dirs c.dir).made) := by
    refine ⟨?_, fun other => ?_⟩
    · rw [Function.update_self]
      exact Presence.made_ne_missing _
    · by_cases hother : other = c.dir
      · rw [hother, Function.update_self]
        exact .inr rfl
      · exact .inl (Function.update_of_ne hother _ _)
  have hstart : World.Step Z w (w.setLive k (some ⟨c, .begin⟩)) := .start k c hk
  have hmade : World.Step Z (w.setLive k (some ⟨c, .begin⟩)) _ :=
    .makeDirectory _ (Function.update_self k _ _) hrefusal hmakes
  have hcreate : World.Step Z { (w.setLive k (some ⟨c, .begin⟩)).setLive k (some ⟨c, .made⟩) with
      dirs := Function.update w.dirs c.dir (w.dirs c.dir).made } _ :=
    .create (Function.update_self k _ _) hrefusal
  have hrun := ((Relation.ReflTransGen.single hstart).tail hmade).tail hcreate
  simp only [World.setLive, Function.update_idem] at hrun
  exact hrun

/-- The disk when the file of the call is complete. -/
def written (Z : Platform) (w : World) (c : Call) : Disk Name UInt8 :=
  ((w.disk.create (c.temp w.files.length) w.files.length).append w.files.length
    (c.content Z)).sync w.files.length

theorem files_written : (written Z w c).files w.files.length = some ⟨c.content Z, true⟩ := by
  have hcreate : (w.disk.create (c.temp w.files.length) w.files.length).files w.files.length =
      some ⟨[], false⟩ := Function.update_self _ _ _
  have happend := Disk.files_modify (fun f => ⟨f.content ++ c.content Z, false⟩) hcreate
  exact Disk.files_modify (fun f => { f with synced := true }) happend

theorem leads_closed (hk : w.live k = none) (hrefusal : c.refusal = none) :
    Leads Z w k c c.closed (written Z w c) w.published := by
  have hwritten := (leads_create (Z := Z) hk hrefusal).advance (.wrote (c.content Z).length) rfl
  rw [List.take_length, List.drop_length] at hwritten
  have hdone := hwritten.advance .done rfl
  have hsynced := hdone.advance .done rfl
  exact hsynced.advance .done rfl

theorem entries_temp : (written Z w c).entries (c.temp w.files.length) = some w.files.length :=
  Disk.entries_setEntry _

theorem entries_target : (written Z w c).entries c.target = w.disk.entries c.target := by
  have hne : c.target ≠ c.temp w.files.length := fun he => Name.noConfusion he
  exact Disk.entries_setEntry_of_ne (some w.files.length) hne

theorem leads_publishing (hk : w.live k = none) (hrefusal : c.refusal = none)
    (hb : c.Bounded Z) :
    Leads Z w k c (.publishing (c.content Z)) (written Z w c) w.published := by
  have hclosed := leads_closed (Z := Z) hk hrefusal
  unfold Call.closed at hclosed
  cases hc : c.writer with
  | writeCompressed =>
    rw [hc] at hclosed
    have hread : (written Z w c).read (c.temp w.files.length) = some (c.content Z) :=
      Disk.read_eq_some_iff.mpr ⟨_, _, entries_temp, files_written, rfl⟩
    have hle : ¬maxCompressedArtifact < (c.content Z).length :=
      not_lt.mpr (hb (by rw [hc]; decide))
    have hback := hclosed.advance .done rfl
    rw [hread, Call.readBack, if_neg hle] at hback
    exact hback
  | writeJSONArtifact =>
    rw [hc] at hclosed
    rw [Call.content_eq_raw (by rw [hc]; decide)]
    exact hclosed
  | atomicJSON =>
    rw [hc] at hclosed
    rw [Call.content_eq_raw (by rw [hc]; decide)]
    exact hclosed

/-- The disk once the file has the name of the target. -/
def linked (Z : Platform) (w : World) (c : Call) : Disk Name UInt8 :=
  let d := (written Z w c).setEntry c.target (some w.files.length)
  match c.writer with
  | .writeCompressed | .writeJSONArtifact => d
  | .atomicJSON => (d.setEntry (c.temp w.files.length) none).syncDirectory fun n => n.dir = c.dir

/-- The world after a call that meets no failure. -/
def World.performed (Z : Platform) (w : World) (k : ℕ) (c : Call) : World :=
  w.done k c (.ok (c.reference Z (c.content Z))) (linked Z w c)

theorem run_call (hk : w.live k = none) (hrefusal : c.refusal = none) (hb : c.Bounded Z)
    (hfree : w.disk.entries c.target = none) :
    Relation.ReflTransGen (World.Step Z) w (w.performed Z k c) := by
  have hpublishing := leads_publishing (Z := Z) hk hrefusal hb
  have htarget : (written Z w c).entries c.target = none := entries_target.trans hfree
  have hlink := Disk.link_eq_some_iff.mpr
    ⟨w.files.length, entries_temp (Z := Z), htarget, rfl⟩
  unfold World.performed linked
  cases hc : c.writer with
  | writeCompressed =>
    have hdone := hpublishing.publish (by rw [Call.publish, hc]; exact hlink)
    rw [Call.published, hc] at hdone
    exact hdone.returns
  | writeJSONArtifact =>
    have hdone := hpublishing.publish (by rw [Call.publish, hc]; exact hlink)
    rw [Call.published, hc] at hdone
    exact hdone.returns
  | atomicJSON =>
    have hrename : (written Z w c).rename (c.temp w.files.length) c.target =
        some (((written Z w c).setEntry c.target (some w.files.length)).setEntry
          (c.temp w.files.length) none) := by
      rw [Disk.rename, entries_temp, htarget]
      rfl
    have hdone := hpublishing.publish (by rw [Call.publish, hc]; exact hrename)
    rw [Call.published, hc] at hdone
    have hflushed := hdone.advance .done rfl
    have hreference : c.reference Z (c.content Z) = none := by rw [Call.reference, hc]
    rw [hreference]
    exact hflushed.returns

/-- A power failure that takes away these fresh directories, and leaves all else as it is. -/
def World.lose (w : World) (lost : Bytes → Bool) : World :=
  let dirs := fun dir =>
    match w.dirs dir with
    | .missing => .missing
    | .fresh => if lost dir then .missing else .durable
    | .durable => .durable
  { w with
    disk := { w.disk with
      entries := fun n => if dirs n.dir = .missing then none else w.disk.entries n
      earlier := fun _ => [] }
    dirs := dirs
    live := fun _ => none }

theorem powerFailure_lose (lost : Bytes → Bool) : w.PowerFailure (w.lose lost) := by
  refine ⟨(w.lose lost).disk, (w.lose lost).dirs, fun dir => ?_,
    ⟨fun n hn => ?_, fun n hn => if_pos hn, fun _ => rfl, fun _ hi => hi, ?_⟩, rfl⟩
  · unfold World.lose
    dsimp only
    cases w.dirs dir with
    | missing => exact rfl
    | fresh =>
      cases lost dir with
      | false => exact Presence.noConfusion
      | true => exact Presence.noConfusion
    | durable => exact rfl
  · have hentry : (w.lose lost).disk.entries n = w.disk.entries n := if_neg hn
    rw [hentry]
    exact Disk.entries_mem_values
  · exact fun i f hf => ⟨f, hf, fun _ => rfl⟩

/-- The compressed form of `null`. -/
def nullGzip : Bytes :=
  [31, 139, 8, 0, 0, 0, 0, 0, 2, 255, 202, 43, 205, 201, 1, 4, 0, 0, 255, 255, 79, 252, 203, 37, 4,
    0, 0, 0]

/-- Gzip and SHA-256 of the texts that the samples write. -/
def samplePlatform : Platform where
  compress raw := if raw = ascii ['n', 'u', 'l', 'l'] then nullGzip else 0 :: raw
  decompress data :=
    if data = nullGzip then some (ascii ['n', 'u', 'l', 'l'], true)
    else data.tail?.map fun raw => (raw, true)
  sha256 data :=
    if data = nullGzip then [235, 66, 36, 172, 62, 38, 66, 218, 68, 18, 250, 155, 145, 59, 98, 188,
      181, 196, 84, 74, 163, 131, 44, 49, 175, 250, 254, 224, 104, 15, 95, 201]
    else if data = ascii ['n', 'u', 'l', 'l', '\n'] then [56, 224, 185, 222, 129, 127, 100, 92, 75,
      236, 55, 192, 212, 163, 229, 139, 174, 204, 203, 4, 15, 87, 24, 220, 6, 154, 114, 199, 56, 90,
      11, 237]
    else List.replicate 32 0
  decompress_compress raw := by
    split
    · simp_all
    · simp [nullGzip]
  length_sha256 data := by
    split
    · rfl
    · split
      · rfl
      · exact List.length_replicate

/-- A call that writes `null` under one of two names in a directory. -/
def sampleCall (writer : Writer) (second : Bool) : Call where
  writer := writer
  dir := [0x6f]
  base := if second then [0x62] else [0x61]
  named := by
    cases second with
    | false => decide
    | true => decide
  text := ⟨[], .null, []⟩
  shallow := Nat.zero_le _

theorem refusal_sample (x : Writer) (second : Bool) : (sampleCall x second).refusal = none := by
  cases x with
  | writeCompressed => rfl
  | writeJSONArtifact => rfl
  | atomicJSON => rfl

theorem bounded_sample (x : Writer) (second : Bool) :
    (sampleCall x second).Bounded samplePlatform := by
  intro _
  have hle : ((sampleCall x second).content samplePlatform).length ≤ 28 := by
    cases x with
    | writeCompressed => exact le_rfl
    | writeJSONArtifact => exact Nat.le_add_left 5 23
    | atomicJSON => exact Nat.le_add_left 5 23
  have hmax : 28 ≤ maxCompressedArtifact := by decide
  exact hle.trans hmax

end IngestKit.Artifacts
