import IngestKit.Archive.Removal
import IngestKit.Text.Decimal

/-! Archiving never destroys bytes as long as no symbolic link comes in its way. -/
namespace IngestKit.Archive
open Files Interference Transition
open Interference.Program (each)

section Archiving
variable {δ : Type} [DecidableEq δ] {host : Host δ} {repo destination root : Path}
  {paths : List Bytes} {apply : Bool} {d : Disk δ}

theorem ensures_applyArchive (hhash : Function.Injective host.hash)
    {found : Inventory δ} (hfound : Listed (Selected destination root paths) found.files)
    (hd : Unmade destination d) :
    Ensures host destination paths (fun _ _ => True)
      (applyArchive host root destination paths found) d := by
  have hne : ∀ e ∈ found.files, e.path ≠ [manifestName] := fun e he => (hfound.all e he).ne_manifest
  refine (ensures_refuseArchiveSymlinks private_unmade hd).bind fun _ d hd => ?_
  refine (ensures_mkdirDestination hd.1).bind fun _ d hd => ?_
  refine (ensures_archiveFiles hd ⟨hfound.nodup, hne⟩).bind fun _ d hd => ?_
  refine (ensures_refuseArchiveSymlinks private_copying hd).bind fun _ d hd => ?_
  refine (ensures_inventory (B := fun _ => True) private_copying hd.1 fun _ _ _ _ _ _ _ =>
    trivial).bind fun current d hd => ?_
  refine ensures_failIf_bind fun _ => ?_
  refine (ensures_verifyFiles current.files hd.1 hne).bind fun _ d hd => ?_
  refine (ensures_refuseArchiveSymlinks private_sealed hd).bind fun _ d hd => ?_
  refine Ensures.bind (Q := fun _ => Recorded host destination root found.files)
    (ensures_save hd.1 hne rfl fun e he => ?_) fun _ d hd => ?_
  · exact ⟨_, List.mem_map_of_mem he, rfl⟩
  refine (ensures_foldlM (J := fun _ (m : Manifest δ) d =>
    Recorded host destination root found.files d ∧ m.checkoutRoot = root ∧
      ∀ e ∈ found.files, ∃ x ∈ m.files, x.path = e.path) found.files
    ⟨hd, rfl, fun e he => ⟨_, List.mem_map_of_mem he, rfl⟩⟩
    fun done x rest m d hl hd => ?_).bind fun m d hd => ?_
  · have hx : x ∈ found.files := hl ▸ List.mem_append_right _ List.mem_cons_self
    refine Safe.mono (ensures_removeFile hhash hd.1 hx (hfound.all x hx)) fun m' d hd' => ?_
    exact ⟨hd'.1, hd'.2.1.trans hd.2.1, hd'.2.2 ▸ hd.2.2⟩
  refine Ensures.bind (ensures_each (J := fun _ => Recorded host destination root found.files) _
    hd.1 fun _ _ _ _ _ hd => ensures_removeDirectory hd) fun _ d hd' => ?_
  exact (ensures_save hd'.toSealed hne hd.2.1 hd.2.2).bind fun _ _ _ => trivial

theorem PurePath.ne_of_safe {rel : PurePath} (h : rel.isUnsafe = false) :
    rel.parts ≠ [] ∧ rel.parts ≠ [manifestName] := by
  simp only [PurePath.isUnsafe, Bool.or_eq_false_iff, decide_eq_false_iff_not] at h
  exact ⟨h.1.1.1.2, h.1.1.2⟩

/-- What is found below a selected path is neither the manifest's nor in the archive, which is
not there yet and not in the checkout. -/
theorem selected_append {name : Bytes} {t : Tree} (l : Path) (hname : name ∈ paths)
    (hroot : ¬root <+: destination) (hclear : t.Clear destination)
    (hnone : t.get destination = none) (hsafe : (PurePath.ofText name).isUnsafe = false)
    (hexists : t.pathExists (root ++ (PurePath.ofText name).parts) = true) :
    Selected destination root paths ((PurePath.ofText name).parts ++ l) := by
  obtain ⟨hnil, hmanifest⟩ := PurePath.ne_of_safe hsafe
  refine ⟨⟨name, hname, List.prefix_append _ _⟩, fun heq => ?_, fun hpre => ?_⟩
  · rcases List.append_eq_singleton_iff.mp heq with ⟨h, -⟩ | ⟨h, -⟩
    · exact hnil h
    · exact hmanifest h
  · rw [← List.append_assoc] at hpre
    rcases List.prefix_or_prefix_of_prefix hpre (List.prefix_append _ l) with h | h
    · rw [Tree.not_exists_below_missing hclear hnone h] at hexists
      cases hexists
    · exact hroot ((List.prefix_append _ _).trans h)

theorem ensures_archivePaths (hhash : Function.Injective host.hash) (hd : d.log = []) :
    Ensures host destination paths (fun _ _ => True)
      (archivePaths host repo destination paths apply) d := by
  have hlog : Private destination fun d : Disk δ => d.log = [] := fun _ _ hlog _ hd =>
    hlog.trans hd
  have hclear := hlog.and private_clear
  have hnone : Private destination fun d : Disk δ => d.tree.get destination = none :=
    fun _ _ _ hget hd => (hget _ (.inl List.prefix_rfl)).trans hd
  have hunmade := private_unmade.and hnone
  refine ensures_query_bind rfl hlog hd fun d hd _ => ensures_failIf_bind fun _ => ?_
  refine ensures_query_bind rfl hlog hd fun d hd _ => ensures_failIf_bind fun _ => ?_
  refine ensures_query_bind rfl hlog hd fun d hd _ => ensures_orRaise_bind fun root _ => ?_
  refine (ensures_refuseArchiveSymlinks hlog hd).bind fun _ d hd => ?_
  refine ensures_query_bind rfl hclear hd fun d hd _ => ensures_orRaise_bind fun resolved h => ?_
  have hresolved : resolved = destination := Tree.resolve_eq hd.2 h
  refine ensures_failIf_bind fun hout => ?_
  have hroot : ¬root <+: destination := fun hpre => by
    rw [hresolved, List.isPrefixOf_iff_prefix.mpr hpre] at hout
    cases hout
  refine ensures_query_bind rfl hclear hd fun d hd _ => ensures_failIf_bind fun hmissing => ?_
  have hd := unmade_of_not_exists hd.1 hd.2 hmissing
  refine ensures_query_bind rfl hunmade hd fun d hd _ => ensures_failIf_bind fun _ => ?_
  refine (ensures_inventory (B := Selected destination root paths) hunmade hd
    fun name hname d l hd hsafe => selected_append l hname hroot hd.1.clear hd.2 hsafe).bind ?_
  rintro found d ⟨hd, hfound⟩
  cases apply with
  | true => exact ensures_applyArchive hhash hfound hd.1
  | false => trivial

end Archiving

section Runs
variable {δ : Type} [DecidableEq δ]

/-- At every point at which the script stops, of its own, by an error or because it is killed:
what it removed is a file of the saved inventory below a selected path, and the archive holds
the bytes of each file that was removed at the same relative path; no archived file has changed and
none is at the manifest's path; and a step of the script that changes a file either does so in the
archive or notes its removal. -/
theorem archive_never_destroys_bytes {host : Host δ} (hhash : Function.Injective host.hash)
    {repo destination : Path} {paths : List Bytes} {apply : Bool} {t : Tree}
    {trace : List (Action Failure Change)} {w : Run δ}
    (h : execute (system host destination).step (start host repo destination paths apply t) trace =
      some w)
    (hlinks : ∀ a x b u, trace = a ++ x :: b →
      execute (system host destination).step (start host repo destination paths apply t) a =
        some u → Meets (fun c d => unlinked c d = true) u x) :
    (∀ q n, .removed q n ∈ w.state.log → ∃ r m x, .saved r m ∈ w.state.log ∧ x ∈ m.files ∧
      q = m.checkoutRoot ++ x.path ∧
      (∃ name ∈ paths, (PurePath.ofText name).parts <+: x.path) ∧
      ∀ b, n = .file b → w.state.tree.get (destination ++ x.path) = some (.file b)) ∧
    (∀ q b, .archived q b ∈ w.state.log →
      w.state.tree.get q = some (.file b) ∧ ∀ m, .saved q m ∉ w.state.log) ∧
    ∀ x v, x.own = true → Meets (fun c d => unlinked c d = true) w x →
      (system host destination).step w x = some v → Framed destination w.state v.state := by
  have hkept : Kept destination paths (⟨t, []⟩ : Disk δ) := ⟨nofun, nofun, nofun⟩
  obtain ⟨hw, hsafe⟩ := Safe.execute (fun _ _ _ _ _ h => h) (fun _ _ hG => hG.1)
    (fun c => private_kept.stable c) (ensures_archivePaths hhash rfl) hkept h hlinks
  refine ⟨fun q n hq => ?_, fun q b hq => ?_, fun x v hx hmeets hv => ?_⟩
  · obtain ⟨r, m, x, hm, hx, hroot, hname, hfile⟩ := hw.removed q n hq
    exact ⟨r, m, x, hm, hx, hroot, hname, fun b hb => (hw.archived _ b (hfile b hb)).2.2⟩
  · obtain ⟨-, hne, hget⟩ := hw.archived q b hq
    exact ⟨hget, fun m hm => hne (hw.saved q m hm)⟩
  · exact ((hsafe.step (fun _ _ _ _ _ h => h) hmeets hv).2 hx).2

end Runs

section Sample

def quotedText (b : Bytes) : Bytes := 0x22 :: (b ++ [0x22])

def indented (depth : ℕ) (b : Bytes) : Bytes := 0x0a :: (List.replicate (2 * depth) 0x20 ++ b)

/-- A list or an object at a depth, one part on each line. -/
def blockText (opening closing : UInt8) (depth : ℕ) : List Bytes → Bytes
  | [] => [opening, closing]
  | parts => opening :: (joinCommas (parts.map (indented (depth + 1))) ++ indented depth [closing])

def listText (depth : ℕ) (parts : List Bytes) : Bytes := blockText 0x5b 0x5d depth parts

def objectText (depth : ℕ) (members : List (List Char × Bytes)) : Bytes :=
  blockText 0x7b 0x7d depth
    (members.map fun m => quotedText (ascii m.1) ++ 0x3a :: 0x20 :: m.2)

def boolText (b : Bool) : Bytes :=
  if b then ascii ['t', 'r', 'u', 'e'] else ascii ['f', 'a', 'l', 's', 'e']

def evidenceText (e : Evidence Bytes) : Bytes :=
  objectText 2
    [(['p', 'a', 't', 'h'], quotedText (text e.path)),
      (['s', 'i', 'z', 'e'], decimal e.size),
      (['s', 'h', 'a', '2', '5', '6'], quotedText e.sha256),
      (['t', 'r', 'a', 'c', 'k', 'e', 'd'], boolText e.tracked),
      (['r', 'e', 'a', 's', 'o', 'n'], quotedText (ascii e.reason.toList))]

/-- `json.dump` with an indent of two, for names that need no escape. -/
def manifestText (m : Manifest Bytes) : Bytes :=
  objectText 0
    [(['s', 'c', 'h', 'e', 'm', 'a'], decimal m.schema),
      (['c', 'h', 'e', 'c', 'k', 'o', 'u', 't', '_', 'r', 'o', 'o', 't'],
        quotedText (0x2f :: text m.checkoutRoot)),
      (['s', 'o', 'u', 'r', 'c', 'e', '_', 's', 'h', 'a'],
        m.sourceSha.elim (ascii ['n', 'u', 'l', 'l']) quotedText),
      (['p', 'a', 't', 'h', 's'], listText 1 (m.paths.map quotedText)),
      (['f', 'i', 'l', 'e', 's'], listText 1 (m.files.map evidenceText)),
      (['v', 'e', 'r', 'i', 'f', 'i', 'e', 'd'], boolText m.verified),
      (['r', 'e', 'm', 'o', 'v', 'e', 'd'],
        listText 1 (m.removed.map fun p => quotedText (text p)))] ++ [0x0a]

/-- The SHA-256 of the bytes in the samples below; any other text stands for itself, marked. -/
def sampleHash (b : Bytes) : Bytes :=
  if b = [1] then
    ascii (Nat.toDigits 16 0x4bf5122f344554c53bde2ebb8cd2b7e3d1600ad631c385a5d7cce23c7785459a)
  else if b = [2] then
    ascii (Nat.toDigits 16 0xdbc1b4c900ffe48d575b5da5c638040125f65db0fe3e24494b76ea986457d986)
  else 0xff :: b

theorem sampleHash_injective : Function.Injective sampleHash := by
  have hfirst : (sampleHash [1]).head? = some 0x34 := by decide +kernel
  have hsecond : (sampleHash [2]).head? = some 0x64 := by decide +kernel
  have hother : ∀ b, b ≠ [1] → b ≠ [2] → sampleHash b = 0xff :: b := by
    intro b h1 h2
    rw [sampleHash, if_neg h1, if_neg h2]
  have hcases : ∀ b, b = [1] ∧ (sampleHash b).head? = some 0x34 ∨
      b = [2] ∧ (sampleHash b).head? = some 0x64 ∨ sampleHash b = 0xff :: b := by
    intro b
    by_cases h1 : b = [1]
    · exact .inl ⟨h1, h1 ▸ hfirst⟩
    · by_cases h2 : b = [2]
      · exact .inr (.inl ⟨h2, h2 ▸ hsecond⟩)
      · exact .inr (.inr (hother b h1 h2))
  intro a b h
  rcases hcases a with ⟨rfl, ha⟩ | ⟨rfl, ha⟩ | ha <;>
    rcases hcases b with ⟨rfl, hb⟩ | ⟨rfl, hb⟩ | hb <;> simp_all

/-- A repository with two files. -/
def sampleHost : Host Bytes where
  hash := sampleHash
  dump := manifestText
  revision _ := some (ascii (Nat.toDigits 16 0x9b2c4f17d0a86e35b1f9c2d47e6083a5d41b7f62))
  tracked _ := [ascii ['a'], ascii ['c'], []]

def checkoutPath : Path := [ascii ['r']]

def archivePath : Path := [ascii ['z']]

def retiredPath : Path := checkoutPath ++ [ascii ['a']]

def keptPath : Path := checkoutPath ++ [ascii ['c']]

/-- A checkout with two files of the same bytes. -/
def checkout : Tree :=
  ⟨[(checkoutPath, .dir), (retiredPath, .file [1]), (keptPath, .file [1])], by decide⟩

def archiveRetired : Run Bytes :=
  start sampleHost checkoutPath archivePath [ascii ['a']] true checkout

/-- The file that is kept changes while the other one is archived. -/
def undisturbed : List (Action Failure Change) :=
  List.replicate 20 .run ++ [.other ⟨keptPath, some (.file [2])⟩] ++ List.replicate 33 .run

theorem archive_never_destroys_bytes_undisturbed :
    ∃ w, execute (system sampleHost archivePath).step archiveRetired undisturbed = some w ∧
      .removed retiredPath (.file [1]) ∈ w.state.log ∧
      ∃ r m x, .saved r m ∈ w.state.log ∧ x ∈ m.files ∧
        retiredPath = m.checkoutRoot ++ x.path ∧
        w.state.tree.get (archivePath ++ x.path) = some (.file [1]) := by
  have hrun : ∃ w ∈ execute (system sampleHost archivePath).step archiveRetired undisturbed,
      .removed retiredPath (.file [1]) ∈ w.state.log := by
    decide +kernel
  obtain ⟨w, hw, hremoved⟩ := hrun
  have hmeets : allSteps (system sampleHost archivePath).step (fun u x =>
      decide (Meets (fun c d => unlinked c d = true) u x)) archiveRetired undisturbed = true := by
    decide +kernel
  obtain ⟨hall, -, -⟩ := archive_never_destroys_bytes sampleHash_injective hw
    fun a x b u hl hu => by
      have hx := allowed_of_allSteps hmeets hl hu
      exact of_decide_eq_true hx
  obtain ⟨r, m, x, hm, hx, hpath, -, hfile⟩ := hall retiredPath (.file [1]) hremoved
  exact ⟨w, hw, hremoved, r, m, x, hm, hx, hpath, hfile [1] rfl⟩

/-- The file is a symbolic link to the other one while it is copied, and again a file when it is
verified; later the other one changes. -/
def swapped : List (Action Failure Change) :=
  List.replicate 24 .run ++
    [.other ⟨retiredPath, some (.symlink ⟨true, keptPath.map .name⟩)⟩] ++
    List.replicate 3 .run ++ [.other ⟨retiredPath, some (.file [1])⟩] ++
    List.replicate 25 .run ++ [.other ⟨keptPath, some (.file [2])⟩]

def nestedPath : Path := checkoutPath ++ [ascii ['d']]

def elsewherePath : Path := [ascii ['e']]

/-- A checkout with a file in a directory, and a file of the same bytes outside of it. -/
def nestedCheckout : Tree :=
  ⟨[(checkoutPath, .dir), (nestedPath, .dir), (nestedPath ++ [ascii ['a']], .file [1]),
    (elsewherePath, .dir), (elsewherePath ++ [ascii ['a']], .file [1])], by decide⟩

/-- Before the last look at the file its directory is replaced by a symbolic link. -/
def redirected : List (Action Failure Change) :=
  List.replicate 48 .run ++
    [.other ⟨nestedPath ++ [ascii ['a']], none⟩, .other ⟨nestedPath, none⟩,
      .other ⟨nestedPath, some (.symlink ⟨true, elsewherePath.map .name⟩)⟩] ++
    List.replicate 6 .run

/-- The script returns and no file has the bytes any more, in the archive or elsewhere; or it has
removed a file that is not in the checkout. -/
theorem archived_link_loses_bytes :
    (∃ w ∈ execute (system sampleHost archivePath).step archiveRetired swapped,
      w.program.next = none ∧ .removed retiredPath (.file [1]) ∈ w.state.log ∧
      w.state.tree.read (archivePath ++ [ascii ['a']]) = .ok [2] ∧
      ∀ e ∈ w.state.tree.nodes, e.2 ≠ .file [1]) ∧
    ∃ w ∈ execute (system sampleHost archivePath).step
        (start sampleHost checkoutPath archivePath [ascii ['d', '/', 'a']] true nestedCheckout)
        redirected,
      w.program.next = none ∧
      .removed (elsewherePath ++ [ascii ['a']]) (.file [1]) ∈ w.state.log := by
  constructor <;> decide +kernel

end Sample

end IngestKit.Archive
