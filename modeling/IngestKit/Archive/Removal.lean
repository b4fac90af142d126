import IngestKit.Archive.Copying

/-! The copies are verified, the manifest is saved and the files are removed. -/
namespace IngestKit.Archive
open Files Interference
open Interference.Program (each)

/-- A path below one that was selected, that is neither the manifest's nor in the archive. -/
structure Selected (destination root : Path) (paths : List Bytes) (p : Path) : Prop where
  selected : ∃ name ∈ paths, (PurePath.ofText name).parts <+: p
  ne_manifest : p ≠ [manifestName]
  outside : ¬destination <+: root ++ p

/-- Every file of the inventory is in the archive, with the bytes that were inventoried. -/
structure Sealed {δ : Type} (host : Host δ) (destination : Path) (files : List (Entry δ))
    (d : Disk δ) : Prop where
  owned : Owned destination d.tree
  record : ∀ b, .archived (destination ++ [manifestName]) b ∉ d.log
  copied : ∀ e ∈ files, ∃ b, .archived (destination ++ e.path) b ∈ d.log ∧
    d.tree.get (destination ++ e.path) = some (.file b) ∧ host.hash b = e.sha256

/-- The archive is sealed and its manifest names all files of the inventory. -/
structure Recorded {δ : Type} (host : Host δ) (destination root : Path)
    (files : List (Entry δ)) (d : Disk δ) : Prop extends Sealed host destination files d where
  saved : ∃ r m, .saved r m ∈ d.log ∧ m.checkoutRoot = root ∧
    ∀ e ∈ files, ∃ x ∈ m.files, x.path = e.path
  present : ∃ b, d.tree.get (destination ++ [manifestName]) = some (.file b)

section Making
variable {δ : Type} {host : Host δ} {destination : Path} {paths : List Bytes} {d : Disk δ}

/-- Nothing stands at the archive's path, and no link leads away from it. -/
structure Unmade (destination : Path) (d : Disk δ) : Prop where
  clear : d.tree.Clear destination
  missing : ∀ q, destination <+: q → q ≠ destination → d.tree.get q = none
  log : d.log = []

theorem private_unmade : Private destination (Unmade destination : Disk δ → Prop) := by
  intro d e hlog hget hd
  refine ⟨private_clear d e hlog hget hd.clear, fun q hq hne => ?_, hlog.trans hd.log⟩
  rw [hget q (.inl hq), hd.missing q hq hne]

theorem unmade_of_not_exists (hlog : d.log = []) (hclear : d.tree.Clear destination)
    (h : d.tree.pathExists destination = false) :
    Unmade destination d ∧ d.tree.get destination = none := by
  have hnone := Tree.get_eq_none_of_not_exists hclear h
  refine ⟨⟨hclear, fun q hq hne => ?_, hlog⟩, hnone⟩
  by_contra hsome
  obtain ⟨n, hn⟩ := Option.ne_none_iff_exists'.mp hsome
  rw [Tree.get_of_isPrefix hn hq hne.symm] at hnone
  cases hnone

theorem Unmade.put_of_mkdir {p : Path} {u : Tree} (h : Unmade destination d)
    (hp : p <+: destination) (hu : d.tree.mkdir p = .ok u) : d.tree.put p .dir = some u := by
  obtain ⟨q, hl, -, hput⟩ := Tree.mkdir_eq_ok hu
  obtain rfl := Tree.locate_false_eq (h.clear.of_isPrefix ((List.dropLast_prefix p).trans hp)) hl
  exact hput

theorem Unmade.mkdir {p : Path} {u : Tree} (h : Unmade destination d) (hp : p <+: destination)
    (hu : d.tree.mkdir p = .ok u) : Unmade destination { d with tree := u } := by
  have hput := h.put_of_mkdir hp hu
  refine ⟨fun q hq => ?_, fun q hq hne => ?_, h.log⟩
  · unfold Tree.linkAt
    rw [Tree.get_put hput]
    split_ifs
    · rfl
    · exact h.clear q hq
  · have hqp : q ≠ p := fun heq => hne ((heq ▸ hp).eq_of_length_le hq.length_le)
    exact (Tree.get_put hput q).trans ((if_neg hqp).trans (h.missing q hq hne))

theorem Unmade.copying {u : Tree} (h : Unmade destination d)
    (hu : d.tree.mkdir destination = .ok u) :
    Copying destination [] { d with tree := u } := by
  have hput := h.put_of_mkdir List.prefix_rfl hu
  have hdir : u.get destination = some .dir := by rw [Tree.get_put hput, if_pos rfl]
  refine ⟨⟨fun q hq => ?_, fun q n hq hn => ?_⟩, by simp [h.log], nofun⟩
  · by_cases hqd : q = destination
    · rw [hqd, hdir]
    · exact Tree.get_of_isPrefix hdir hq hqd
  · rw [Tree.get_put hput] at hn
    split_ifs at hn with hqd
    · exact .inl (Option.some.inj hn).symm
    · rw [h.missing q hq hqd] at hn
      cases hn

theorem ensures_mkdirDestination (hd : Unmade destination d) :
    Ensures host destination paths (fun _ d => Copying destination [] d)
      (mkdirParents false destination.reverse) d := by
  refine ensures_mkdirParents private_unmade hd (fun d p u hd hp hu => ?_) (fun d u hd hu => ?_)
    nofun
  · rw [List.reverse_reverse] at hp
    exact hd.mkdir hp hu
  · rw [List.reverse_reverse] at hu
    exact hd.copying hu

end Making

section Verifying
variable {δ : Type} [DecidableEq δ] {host : Host δ} {destination root : Path}
  {paths : List Bytes} {files : List (Entry δ)} {d : Disk δ}

theorem ensures_verifyFiles (current : List (Entry δ)) (hd : Copying destination files d)
    (hfiles : ∀ e ∈ files, e.path ≠ [manifestName]) :
    Ensures host destination paths (fun _ d => Sealed host destination files d)
      (each files (verifyFile host destination current)) d := by
  let J (done : List (Entry δ)) (d : Disk δ) : Prop := Copying destination files d ∧
    ∀ e ∈ done, ∀ b, d.tree.get (destination ++ e.path) = some (.file b) → host.hash b = e.sha256
  have hJ : ∀ done, Private destination (J done) := fun done d e hlog hget hd =>
    ⟨private_copying d e hlog hget hd.1, fun x hx b hb => hd.2 x hx b
      ((hget _ (.inl (List.prefix_append _ _))).symm.trans hb)⟩
  have hloop : Ensures host destination paths (fun _ d => J files d)
      (each files (verifyFile host destination current)) d := by
    refine ensures_each (J := J) files ⟨hd, nofun⟩ fun done x rest d hl hd => ?_
    refine ensures_failIf_bind fun _ => ?_
    refine (ensures_hashFile (hJ done) hd _).bind ?_
    rintro h d ⟨hd, b, hb, rfl⟩
    refine ensures_failIf fun hsame => ⟨hd.1, fun e he c hc => ?_⟩
    rcases List.mem_append.mp he with he | he
    · exact hd.2 e he c hc
    · rw [List.mem_singleton.mp he] at hc ⊢
      cases hb.symm.trans (Tree.read_of_get hc)
      simpa using hsame
  refine Safe.mono hloop fun _ d hd => ⟨hd.1.owned, fun b hb => ?_, fun e he => ?_⟩
  · obtain ⟨e, he, c, heq⟩ := hd.1.log _ hb
    exact hfiles e he (List.append_cancel_left (Effect.archived.inj heq).1).symm
  · obtain ⟨b, hb, hget⟩ := hd.1.copied e he
    exact ⟨b, hb, hget, hd.2 e he b hget⟩

end Verifying

section Saving
variable {δ : Type} {host : Host δ} {destination root : Path} {paths : List Bytes}
  {files : List (Entry δ)} {d : Disk δ}

theorem private_sealed : Private destination (Sealed host destination files) := by
  intro d e hlog hget hd
  refine ⟨owned_congr hd.owned hget, by rw [hlog]; exact hd.record, fun x hx => ?_⟩
  obtain ⟨b, hb, hfile, hhash⟩ := hd.copied x hx
  exact ⟨b, hlog ▸ hb, (hget _ (.inl (List.prefix_append _ _))).trans hfile, hhash⟩

theorem private_recorded : Private destination (Recorded host destination root files) := by
  intro d e hlog hget hd
  refine ⟨private_sealed d e hlog hget hd.toSealed, by rw [hlog]; exact hd.saved, ?_⟩
  rw [hget _ (.inl (List.prefix_append _ _))]
  exact hd.present

/-- What leaves the archived files alone keeps the archive sealed. -/
theorem Sealed.step {e : Disk δ} (h : Sealed host destination files d)
    (howned : Owned destination e.tree)
    (hrecord : ∀ b, .archived (destination ++ [manifestName]) b ∉ e.log)
    (hlog : ∀ x ∈ d.log, x ∈ e.log)
    (hget : ∀ x ∈ files, e.tree.get (destination ++ x.path) =
      d.tree.get (destination ++ x.path)) : Sealed host destination files e := by
  refine ⟨howned, hrecord, fun x hx => ?_⟩
  obtain ⟨b, hb, hfile, hhash⟩ := h.copied x hx
  exact ⟨b, hlog _ hb, (hget x hx).trans hfile, hhash⟩

theorem keeps_saved {u : Tree} {m : Manifest δ}
    (hrecord : ∀ b, .archived (destination ++ [manifestName]) b ∉ d.log)
    (hsame : ∀ q, q ≠ destination ++ [manifestName] → u.get q = d.tree.get q) :
    Keeps destination paths d ⟨u, d.log ++ [.saved (destination ++ [manifestName]) m]⟩ := by
  have hw : Keeps destination paths d { d with tree := u } :=
    keeps_of_write (List.prefix_append _ _) hrecord rfl hsame
  refine ⟨fun hd => (hw.1 hd).snoc nofun (fun q n hq => ?_) nofun, hw.2.snoc _⟩
  cases hq
  rfl

/-- The manifest is saved next to the archived files. -/
theorem ensures_save {m : Manifest δ} (hd : Sealed host destination files d)
    (hfiles : ∀ e ∈ files, e.path ≠ [manifestName]) (hroot : m.checkoutRoot = root)
    (hm : ∀ e ∈ files, ∃ x ∈ m.files, x.path = e.path) :
    Ensures host destination paths (fun _ d => Recorded host destination root files d)
      (save (destination ++ [manifestName]) m) d := by
  have hp : destination <+: destination ++ [manifestName] := List.prefix_append _ _
  have hne : ∀ e ∈ files, destination ++ e.path ≠ destination ++ [manifestName] := fun e he heq =>
    hfiles e he (List.append_cancel_left heq)
  refine (ensures_create (Q := Sealed host destination files) private_sealed
    hd (fun d hd => hd.owned) hp (fun d b hd => hd.record b) fun d u hd hu _ hsame =>
      hd.step hu hd.record (fun _ h => h) fun x hx => hsame _ (hne x hx)).bind
    fun r d hr => ensures_orRaise_bind fun a ha => ?_
  refine Ensures.bind (Q := fun r d => ∀ a, r = .ok a → Recorded host destination root files d)
    (ensures_call private_sealed (hr a ha) fun d hd _ => ⟨fun progress =>
      keeps_partial_write hd.owned hp hd.record _, ?_⟩)
    fun r d hr => ensures_orRaise_bind fun a ha => ?_
  · simp only [respond, Disk.write]
    cases ha : d.tree.append (destination ++ [manifestName]) (host.dump m) with
    | error e => exact ⟨keeps_refl d, fun _ h => by cases h⟩
    | ok r =>
      obtain ⟨q, c, u⟩ := r
      obtain ⟨rfl, hu, -, hget, hsame⟩ := hd.owned.append hp ha
      refine ⟨keeps_saved hd.record hsame, fun _ _ => ⟨hd.step hu (fun b hb => ?_)
        (fun x hx => List.mem_append_left _ hx) fun x hx => hsame _ (hne x hx),
        ⟨_, m, List.mem_append_right _ (List.mem_singleton_self _), hroot, hm⟩, c, hget⟩⟩
      exact hd.record b ((List.mem_append.mp hb).resolve_right (by simp))
  · have hI : Private destination (Recorded host destination root files) := private_recorded
    refine ensures_query_bind rfl hI (hr a ha) fun d hd _ => ensures_orRaise_bind fun _ _ => ?_
    refine ensures_query_bind rfl hI hd fun d hd _ => ?_
    exact ensures_orRaise fun _ _ => hd

end Saving

section Removing
variable {δ : Type} {host : Host δ} {destination root p : Path} {paths : List Bytes}
  {files : List (Entry δ)} {d : Disk δ} {u : Tree} {n : Node}

theorem Recorded.step {e : Disk δ} (h : Recorded host destination root files d)
    (howned : Owned destination e.tree)
    (hlog : ∀ x ∈ d.log, x ∈ e.log)
    (hold : ∀ q b, .archived q b ∈ e.log → .archived q b ∈ d.log)
    (hget : ∀ q, destination <+: q → ∀ b, d.tree.get q = some (.file b) →
      e.tree.get q = some (.file b)) : Recorded host destination root files e := by
  refine ⟨⟨howned, fun b hb => h.record b (hold _ b hb), fun x hx => ?_⟩, ?_, ?_⟩
  · obtain ⟨b, hb, hfile, hhash⟩ := h.copied x hx
    exact ⟨b, hlog _ hb, hget _ (List.prefix_append _ _) b hfile, hhash⟩
  · obtain ⟨r, m, hm, hroot, hall⟩ := h.saved
    exact ⟨r, m, hlog _ hm, hroot, hall⟩
  · obtain ⟨b, hb⟩ := h.present
    exact ⟨b, hget _ (List.prefix_append _ _) b hb⟩

/-- A directory that holds the archive is not empty. -/
theorem Recorded.rmdir (h : Recorded host destination root files d)
    (hu : d.tree.rmdir p = .ok u) :
    Keeps destination paths d { d with tree := u } ∧
      Recorded host destination root files { d with tree := u } := by
  obtain ⟨q, hdir, hrm⟩ := Tree.rmdir_eq_ok hu
  obtain ⟨c, hc⟩ := h.present
  have hq : ¬q <+: destination := fun hq => by
    have hne : q ≠ destination ++ [manifestName] := fun heq => by
      rw [heq, hc] at hdir
      cases hdir
    rw [Tree.get_eq_none_of_remove hrm (hq.trans (List.prefix_append _ _)) hne] at hc
    cases hc
  have hfile : ∀ r b, d.tree.get r = some (.file b) → u.get r = some (.file b) := by
    intro r b hr
    have hne : r ≠ q := fun heq => by
      rw [heq, hdir] at hr
      cases hr
    rw [Tree.get_remove hrm, if_neg hne, hr]
  exact ⟨keeps_of_fresh rfl hfile, h.step (h.owned.remove hrm hq) (fun _ h => h)
    (fun _ _ h => h) fun r _ b hr => hfile r b hr⟩

theorem ensures_removeDirectory (hd : Recorded host destination root files d) :
    Ensures host destination paths (fun _ d => Recorded host destination root files d)
      (removeDirectory p) d := by
  refine Ensures.bind (Q := fun x d => ∀ a, x = .ok a → Recorded host destination root files d)
    (ensures_call private_recorded hd fun d hd _ => ⟨fun _ => keeps_refl d, ?_⟩)
    fun x d hx => ensures_orRaise hx
  simp only [respond]
  cases hr : d.tree.rmdir p with
  | error e => exact ⟨keeps_refl d, fun _ h => by cases h⟩
  | ok u =>
    obtain ⟨hkeeps, hu⟩ := hd.rmdir hr
    exact ⟨hkeeps, fun _ _ => hu⟩

/-- What leads to the file is as it was when the file was read with these bytes. -/
def LastRead (p : Path) (b : Bytes) (d : Disk δ) : Prop :=
  ∃ t : Tree, t.read p = .ok b ∧ ∀ q, q <+: p → d.tree.get q = t.get q

theorem stable_lastRead (b : Bytes) :
    (system host destination).Stable (some (.unlink p)) (LastRead p b) := by
  rintro x d e h ⟨t, ht, hget⟩
  obtain ⟨-, hsame⟩ := get_of_disturb h
  refine ⟨t, ht, fun q hq => (hsame q (.inr (.inr ?_))).trans (hget q hq)⟩
  exact List.isPrefixOf_iff_prefix.mpr hq

theorem Recorded.unlink {x : Entry δ} {b : Bytes} (hhash : Function.Injective host.hash)
    (h : Recorded host destination root files d) (hx : x ∈ files)
    (hsel : Selected destination root paths x.path) (hread : LastRead (root ++ x.path) b d)
    (hb : host.hash b = x.sha256) (hn : d.tree.get (root ++ x.path) = some n) (hdir : n ≠ .dir)
    (hrm : d.tree.remove (root ++ x.path) = some u) :
    Keeps destination paths d ⟨u, d.log ++ [.removed (root ++ x.path) n]⟩ ∧
      Recorded host destination root files ⟨u, d.log ++ [.removed (root ++ x.path) n]⟩ := by
  have hsame : ∀ q, destination <+: q → u.get q = d.tree.get q := by
    intro q hq
    have hne : q ≠ root ++ x.path := fun heq => hsel.outside (heq ▸ hq)
    rw [Tree.get_remove hrm, if_neg hne]
  have habove : ¬root ++ x.path <+: destination := fun hq => by
    rw [h.owned.above _ hq] at hn
    exact hdir (Option.some.inj hn).symm
  refine ⟨⟨fun hd => Kept.snoc (d := { d with tree := u }) ?_ nofun nofun fun q m hq => ?_,
    fun q c hq => ?_⟩, h.step (h.owned.remove hrm habove) (fun y hy => List.mem_append_left _ hy)
      (fun q c hq => (List.mem_append.mp hq).resolve_right (by simp)) fun q hq c hc => ?_⟩
  · refine ⟨fun q c hq => ?_, hd.saved, hd.removed⟩
    obtain ⟨h1, h2, h3⟩ := hd.archived q c hq
    exact ⟨h1, h2, (hsame q h1).trans h3⟩
  · cases hq
    obtain ⟨r, m, hm, hroot, hall⟩ := h.saved
    obtain ⟨y, hy, hpath⟩ := hall x hx
    refine ⟨r, m, y, hm, hy, by rw [hroot, hpath], hpath ▸ hsel.selected, fun c hc => ?_⟩
    obtain ⟨t, ht, hget⟩ := hread
    rw [hget _ List.prefix_rfl, hc] at hn
    cases ht.symm.trans (Tree.read_of_get hn)
    obtain ⟨a, ha, -, hsha⟩ := h.copied x hx
    rw [hpath, hhash (hb.trans hsha.symm)]
    exact ha
  · by_cases hqp : q = root ++ x.path
    · rw [hqp, hn] at hq
      cases hq
      exact .inr (.inr (List.mem_append_right _ (hqp ▸ List.mem_singleton_self _)))
    · exact .inl ((Tree.get_remove hrm q).trans ((if_neg hqp).trans hq))
  · exact (hsame q hq).trans hc

/-- A file is removed only while its bytes are in the archive. -/
theorem ensures_removeFile [DecidableEq δ] {x : Entry δ} {m : Manifest δ}
    (hhash : Function.Injective host.hash) (hd : Recorded host destination root files d)
    (hx : x ∈ files) (hsel : Selected destination root paths x.path) :
    Ensures host destination paths (fun m' d => Recorded host destination root files d ∧
      m'.checkoutRoot = m.checkoutRoot ∧ m'.files = m.files) (removeFile host root m x) d := by
  refine (ensures_hashFile private_recorded hd _).bind ?_
  rintro h d ⟨hd, b, hb, rfl⟩
  refine ensures_failIf_bind fun hsame => ?_
  have hsha : host.hash b = x.sha256 := by simpa using hsame
  refine Ensures.bind (Q := fun r d => ∀ a, r = .ok a → Recorded host destination root files d)
    (safe_perform (I := fun d => Recorded host destination root files d ∧
      LastRead (root ++ x.path) b d) (fun y d e h hd => ⟨private_recorded.stable _ y d e h hd.1,
        stable_lastRead b y d e h hd.2⟩) ⟨hd, d.tree, hb, fun _ _ => rfl⟩
      fun d hd hu => ⟨fun _ => keeps_refl d, ?_⟩)
    fun r d hr => ensures_orRaise_bind fun a ha => ⟨hr a ha, rfl, rfl⟩
  simp only [system, respond, Disk.unlink]
  cases hr : d.tree.unlink (root ++ x.path) with
  | error e => exact ⟨keeps_refl d, fun _ h => by cases h⟩
  | ok r =>
    obtain ⟨q, n, u⟩ := r
    obtain ⟨hl, hn, hdir, hrm⟩ := Tree.unlink_eq_ok hr
    obtain rfl := Tree.locate_false_eq (of_decide_eq_true hu) hl
    obtain ⟨hkeeps, hrec⟩ := hd.1.unlink hhash hx hsel hd.2 hsha hn hdir hrm
    exact ⟨hkeeps, fun _ _ => hrec⟩

end Removing

end IngestKit.Archive
