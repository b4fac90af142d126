import IngestKit.Artifacts.Publication

/-! `VerifyArtifact`: what it accepts is inside the output directory, and is what was written. -/
namespace IngestKit.Artifacts
open Event Files Durable

inductive VerifyError
  | message (text : String)
  | system (e : Errno)
  | gzip
  deriving DecidableEq

variable {Z : Platform} {t : Tree} {directory : Path} {ref : ArtifactRef} {data : Bytes}

namespace ArtifactRef

/-- The path of a reference, as names from the directory. -/
def names (ref : ArtifactRef) : Except VerifyError Path :=
  match localNames ref.path with
  | none => .error (.message "invalid artifact reference")
  | some names =>
    if ref.path = [0x2e] ∨ ref.sha256.length ≠ 64 then
      .error (.message "invalid artifact reference")
    else .ok names

/-- The checks of a compressed content, of which one byte more than the bound is read. -/
def checkGzip (Z : Platform) (ref : ArtifactRef) (data : Bytes) : Except VerifyError Unit :=
  match Z.decompress data with
  | none => .error .gzip
  | some (raw, ends) =>
    if maxRawArtifact < raw.length then
      .error (.message "invalid decompressed artifact bound")
    else if ends = false then .error .gzip
    else if (raw.length : ℤ) ≠ ref.rawBytes then
      .error (.message "invalid decompressed artifact bound")
    else .ok ()

/-- The checks of the file's content. -/
def check (Z : Platform) (ref : ArtifactRef) (data : Bytes) : Except VerifyError Unit :=
  if UUID.hex (Z.sha256 data) ≠ ref.sha256 then .error (.message "artifact checksum mismatch")
  else match ref.codec with
  | .json =>
    if (data.length : ℤ) ≠ ref.rawBytes ∨ (Json.parse? data).isNone then
      .error (.message "invalid JSON manifest artifact")
    else .ok ()
  | .other => .error (.message "unsupported artifact codec")
  | .unset | .gzip => ref.checkGzip Z data

/-- The content is of the codec and of the recorded length. -/
def WellFormed (Z : Platform) (ref : ArtifactRef) (data : Bytes) : Prop :=
  match ref.codec with
  | .json => (data.length : ℤ) = ref.rawBytes ∧ ∃ doc, Json.parse? data = some doc
  | .other => False
  | .unset | .gzip => ∃ raw, Z.decompress data = some (raw, true) ∧ raw.length ≤ maxRawArtifact ∧
      (raw.length : ℤ) = ref.rawBytes

end ArtifactRef

def system {α : Type} : Except Errno α → Except VerifyError α
  | .ok a => .ok a
  | .error e => .error (.system e)

/-- Read the file of a reference: its parent must lead into the directory. -/
def readArtifact (t : Tree) (directory : Path) (size : ℤ) (names : Path) :
    Except VerifyError Bytes := do
  let base ← system (t.evalSymlinks directory)
  let parent ← system (t.evalSymlinks (directory ++ names).dropLast)
  if base <+: parent then
    match ← system (t.stat false (directory ++ names)) with
    | .file content =>
      if maxCompressedArtifact < content.length ∨ (content.length : ℤ) ≠ size then
        .error (.message "invalid artifact size/type")
      else system (t.read (directory ++ names))
    | _ => .error (.message "invalid artifact size/type")
  else .error (.message "artifact reference escapes output directory")

def verifyArtifact (Z : Platform) (t : Tree) (directory : Path) (ref : ArtifactRef) :
    Except VerifyError Unit := do
  let names ← ref.names
  let data ← readArtifact t directory ref.size names
  ref.check Z data

theorem bind_eq_ok {α β : Type} {x : Except VerifyError α} {f : α → Except VerifyError β} {b : β} :
    (x >>= f) = .ok b ↔ ∃ a, x = .ok a ∧ f a = .ok b := by
  cases x with
  | error e =>
    constructor
    · intro h
      cases h
    · rintro ⟨a, ha, -⟩
      cases ha
  | ok a =>
    constructor
    · exact fun h => ⟨a, rfl, h⟩
    · rintro ⟨a', ha', h⟩
      cases ha'
      exact h

theorem system_eq_ok {α : Type} {x : Except Errno α} {a : α} : system x = .ok a ↔ x = .ok a := by
  cases x with
  | error e =>
    constructor
    · intro h
      cases h
    · intro h
      cases h
  | ok b =>
    constructor
    · intro h
      cases h
      rfl
    · intro h
      cases h
      rfl

theorem concat_of_stat {p : Path} {content : Bytes} (h : t.stat false p = .ok (.file content)) :
    ∃ q x, p = q ++ [x] := by
  rcases List.eq_nil_or_concat p with rfl | ⟨q, x, hp⟩
  · have hroot : t.stat false [] = .ok .dir := rfl
    rw [hroot] at h
    cases h
  · exact ⟨q, x, hp.trans (List.concat_eq_append)⟩

/-- The file that is read is the one that was looked at. -/
theorem read_of_stat {p : Path} {content : Bytes} (h : t.stat false p = .ok (.file content)) :
    t.read p = .ok content := by
  obtain ⟨q, x, rfl⟩ := concat_of_stat h
  have hstat := (Tree.stat_concat h rfl).1
  unfold Tree.read
  rw [hstat]
  rfl

theorem readArtifact_eq_ok_iff {size : ℤ} {names : Path} :
    readArtifact t directory size names = .ok data ↔
      ∃ base parent, t.evalSymlinks directory = .ok base ∧
        t.evalSymlinks (directory ++ names).dropLast = .ok parent ∧ base <+: parent ∧
        t.stat false (directory ++ names) = .ok (.file data) ∧
        data.length ≤ maxCompressedArtifact ∧ (data.length : ℤ) = size := by
  constructor
  · intro h
    obtain ⟨base, hbase, h⟩ := bind_eq_ok.mp h
    obtain ⟨parent, hparent, h⟩ := bind_eq_ok.mp h
    split at h
    · rename_i hinside
      obtain ⟨n, hn, h⟩ := bind_eq_ok.mp h
      cases n with
      | file content =>
        dsimp only at h
        split at h
        · cases h
        · rename_i hsize
          have hstat := system_eq_ok.mp hn
          rw [read_of_stat hstat] at h
          cases h
          rw [not_or, not_lt, not_not] at hsize
          exact ⟨base, parent, system_eq_ok.mp hbase, system_eq_ok.mp hparent, hinside, hstat,
            hsize⟩
      | dir => cases h
      | symlink l => cases h
      | special pipe stream => cases h
    · cases h
  · rintro ⟨base, parent, hbase, hparent, hinside, hstat, hsize⟩
    have hok : ¬(maxCompressedArtifact < data.length ∨ (data.length : ℤ) ≠ size) := by
      rw [not_or, not_lt, not_not]
      exact hsize
    unfold readArtifact
    rw [hbase, hparent, hstat, read_of_stat hstat]
    simp only [system, bind, Except.bind, if_pos hinside, if_neg hok]

theorem names_eq_ok_iff {names : Path} : ref.names = .ok names ↔
    localNames ref.path = some names ∧ ref.path ≠ [0x2e] ∧ ref.sha256.length = 64 := by
  unfold ArtifactRef.names
  cases localNames ref.path with
  | none =>
    constructor
    · intro h
      cases h
    · rintro ⟨h, -⟩
      cases h
  | some names' =>
    dsimp only
    split
    · rename_i hbad
      constructor
      · intro h
        cases h
      · rintro ⟨-, hpath, hsum⟩
        exact absurd hbad (not_or.mpr ⟨hpath, not_not.mpr hsum⟩)
    · rename_i hgood
      rw [not_or, not_not] at hgood
      constructor
      · intro h
        cases h
        exact ⟨rfl, hgood⟩
      · rintro ⟨h, -⟩
        cases h
        rfl

theorem verifyArtifact_eq_ok_iff : verifyArtifact Z t directory ref = .ok () ↔
    ∃ names data, ref.names = .ok names ∧ readArtifact t directory ref.size names = .ok data ∧
      ref.check Z data = .ok () := by
  unfold verifyArtifact
  rw [bind_eq_ok]
  constructor
  · rintro ⟨names, hnames, h⟩
    obtain ⟨data, hdata, hcheck⟩ := bind_eq_ok.mp h
    exact ⟨names, data, hnames, hdata, hcheck⟩
  · rintro ⟨names, data, hnames, hdata, hcheck⟩
    exact ⟨names, hnames, bind_eq_ok.mpr ⟨data, hdata, hcheck⟩⟩

theorem hash_of_check (h : ref.check Z data = .ok ()) : UUID.hex (Z.sha256 data) = ref.sha256 := by
  by_contra hne
  unfold ArtifactRef.check at h
  rw [if_pos hne] at h
  cases h

theorem checkGzip_ok (h : ref.checkGzip Z data = .ok ()) :
    ∃ raw, Z.decompress data = some (raw, true) ∧ raw.length ≤ maxRawArtifact ∧
      (raw.length : ℤ) = ref.rawBytes := by
  unfold ArtifactRef.checkGzip at h
  split at h
  · cases h
  next raw ends hraw =>
    split_ifs at h with hlong hends hbytes
    rw [Bool.not_eq_false] at hends
    exact ⟨raw, hends ▸ hraw, not_lt.mp hlong, not_not.mp hbytes⟩

theorem wellFormed_of_check (h : ref.check Z data = .ok ()) : ref.WellFormed Z data := by
  have hhash := hash_of_check h
  unfold ArtifactRef.check at h
  rw [if_neg (not_not.mpr hhash)] at h
  unfold ArtifactRef.WellFormed
  cases hc : ref.codec with
  | unset =>
    rw [hc] at h
    exact checkGzip_ok h
  | gzip =>
    rw [hc] at h
    exact checkGzip_ok h
  | json =>
    rw [hc] at h
    dsimp only at h ⊢
    split_ifs at h with hbad
    rw [not_or, not_not, Option.isNone_iff_eq_none, ← ne_eq] at hbad
    exact ⟨hbad.1, Option.ne_none_iff_exists'.mp hbad.2⟩
  | other =>
    rw [hc] at h
    cases h

/-- The path of an accepted reference is not that of the directory itself. -/
theorem names_of_readArtifact {size : ℤ} {names : Path}
    (h : readArtifact t directory size names = .ok data) : ∃ parents name,
      names = parents ++ [name] := by
  rcases List.eq_nil_or_concat names with rfl | ⟨parents, name, hnames⟩
  · obtain ⟨base, parent, hbase, hparent, hinside, hstat, -⟩ := readArtifact_eq_ok_iff.mp h
    rw [List.append_nil] at hparent hstat
    obtain ⟨p, x, rfl⟩ := concat_of_stat hstat
    obtain ⟨-, r, hr, hself, -⟩ := Tree.stat_concat hstat rfl
    rw [List.dropLast_concat, hr] at hparent
    rw [hself] at hbase
    cases hparent
    cases hbase
    have hlength := hinside.length_le
    rw [List.length_append, List.length_singleton] at hlength
    omega
  · exact ⟨parents, name, hnames.trans List.concat_eq_append⟩

section Recorded
variable {w : World} {c : Call} {root : Path} {dir : Bytes}

/-- The tree has a directory of the world, as far as one name of it is concerned. -/
structure Shows (t : Tree) (root : Path) (w : World) (dir base : Bytes) : Prop where
  isDir : t.get root = some .dir
  file : t.get (root ++ [base]) = (w.disk.read (.target dir base)).map Node.file

theorem hex_injective : Function.Injective UUID.hex := by
  intro a b h
  have ha := UUID.unhex_hex_append a []
  have hb := UUID.unhex_hex_append b []
  rw [h, hb] at ha
  simp only [UUID.unhex, Option.map_some, List.append_nil, Option.some.injEq] at ha
  exact ha.symm

theorem evalSymlinks_of_dir (h : t.get root = some .dir) : t.evalSymlinks root = .ok root :=
  Tree.evalSymlinks_of_walk (Tree.walkFrom_of_get [] h fun _ => rfl) h

/-- A text with a newline after it is still one. -/
theorem parse_raw (hc : c.writer ≠ .writeCompressed) : (Json.parse? c.raw).isSome = true := by
  have hraw : c.raw = c.text.print ++ [0x0a] := by
    unfold Call.raw
    cases hw : c.writer with
    | writeCompressed => exact absurd hw hc
    | writeJSONArtifact => rfl
    | atomicJSON => rfl
  have hprint : Json.Doc.print ⟨c.text.pre, c.text.value, c.text.post ++ [.lf]⟩ = c.raw := by
    rw [hraw]
    simp only [Json.Doc.print, Json.Blank.print, List.map_append, List.append_assoc]
    rfl
  have hparse := (Json.parse?_eq_some_iff c.raw _).mpr ⟨hprint, c.shallow⟩
  rw [hparse]
  rfl

/-- What a call wrote passes the checks of its own reference. -/
theorem check_reference (hrefusal : c.refusal = none)
    (href : c.reference Z (c.content Z) = some ref) : ref.check Z (c.content Z) = .ok () := by
  unfold Call.reference at href
  cases hc : c.writer with
  | writeCompressed =>
    rw [hc] at href
    cases href
    have hcontent : c.content Z = Z.compress c.raw := by rw [Call.content, hc]
    have hle : ¬maxRawArtifact < c.raw.length := by
      intro hlt
      rw [Call.refusal, hc] at hrefusal
      dsimp only at hrefusal
      rw [if_pos hlt] at hrefusal
      cases hrefusal
    simp [ArtifactRef.check, ArtifactRef.checkGzip, hcontent, Z.decompress_compress, hle]
  | writeJSONArtifact =>
    rw [hc] at href
    cases href
    have hne : c.writer ≠ .writeCompressed := by rw [hc]; decide
    have hsome : (Json.parse? c.raw).isNone = false := by
      rw [← Option.not_isSome, parse_raw hne]
      rfl
    simp [ArtifactRef.check, Call.content_eq_raw hne, hsome]
  | atomicJSON =>
    rw [hc] at href
    cases href

theorem reference_fields (href : c.reference Z data = some ref) :
    ref.path = c.base ∧ ref.sha256 = UUID.hex (Z.sha256 data) ∧ ref.size = data.length ∧
      c.writer ≠ .atomicJSON := by
  unfold Call.reference at href
  cases hc : c.writer with
  | writeCompressed =>
    rw [hc] at href
    cases href
    exact ⟨rfl, rfl, rfl, by decide⟩
  | writeJSONArtifact =>
    rw [hc] at href
    cases href
    exact ⟨rfl, rfl, rfl, by decide⟩
  | atomicJSON =>
    rw [hc] at href
    cases href

theorem names_reference (href : c.reference Z data = some ref) : ref.names = .ok [c.base] := by
  obtain ⟨hpath, hsum, -, -⟩ := reference_fields href
  rw [names_eq_ok_iff, hpath, hsum, UUID.length_hex, Z.length_sha256]
  refine ⟨localNames_of_isName c.named, ?_, rfl⟩
  have hname := of_decide_eq_true c.named
  exact hname.2.2.1

/-- The reference of a call is accepted where the file of the call is. -/
theorem accepts_written (hrefusal : c.refusal = none) (hbounded : c.Bounded Z)
    (href : c.reference Z (c.content Z) = some ref) (hdir : t.get root = some .dir)
    (hnode : t.get (root ++ [c.base]) = some (.file (c.content Z))) :
    verifyArtifact Z t root ref = .ok () := by
  obtain ⟨-, -, hsize, hwriter⟩ := reference_fields href
  have hbase := evalSymlinks_of_dir hdir
  have hstat : t.stat false (root ++ [c.base]) = .ok (.file (c.content Z)) :=
    Tree.stat_of_get hnode fun hfollow => by cases hfollow
  rw [verifyArtifact_eq_ok_iff]
  refine ⟨[c.base], c.content Z, names_reference href, ?_, check_reference hrefusal href⟩
  rw [readArtifact_eq_ok_iff, List.dropLast_concat]
  exact ⟨root, root, hbase, hbase, List.prefix_rfl, hstat, hbounded hwriter, hsize.symm⟩

/-- An accepted reference names a regular file that is really below the output directory, however
its path and the links on it are written, with the recorded size, digest and content. -/
theorem verified_artifact_is_inside (h : verifyArtifact Z t directory ref = .ok ()) :
    ∃ parents name base below data, localNames ref.path = some (parents ++ [name]) ∧
      t.evalSymlinks directory = .ok base ∧
      t.evalSymlinks (directory ++ parents) = .ok (base ++ below) ∧
      t.get (base ++ below ++ [name]) = some (.file data) ∧
      data.length ≤ maxCompressedArtifact ∧ (data.length : ℤ) = ref.size ∧
      UUID.hex (Z.sha256 data) = ref.sha256 ∧ ref.WellFormed Z data := by
  obtain ⟨names, data, hnames, hread, hcheck⟩ := verifyArtifact_eq_ok_iff.mp h
  obtain ⟨parents, name, rfl⟩ := names_of_readArtifact hread
  obtain ⟨base, parent, hbase, hparent, ⟨below, rfl⟩, hstat, hle, hsize⟩ :=
    readArtifact_eq_ok_iff.mp hread
  rw [← List.append_assoc] at hstat hparent
  rw [List.dropLast_concat] at hparent
  obtain ⟨-, r, hr, -, hget⟩ := Tree.stat_concat hstat rfl
  cases hparent.symm.trans hr
  exact ⟨parents, name, base, below, data, (names_eq_ok_iff.mp hnames).1, hbase, hparent, hget, hle,
    hsize, hash_of_check hcheck, wellFormed_of_check hcheck⟩

/-- A capture in a directory that another name links to. -/
def linkedTree : Tree where
  nodes := [([[0x6f]], .dir), ([[0x6f], [0x64]], .dir),
    ([[0x6f], [0x6c]], .symlink ⟨false, [.name [0x64]]⟩),
    ([[0x6f], [0x64], [0x61]], .file nullGzip)]
  closed := by decide

/-- The reference to it as `l/./a`. -/
def linkedReference : ArtifactRef where
  codec := .gzip
  path := ascii ['l', '/', '.', '/', 'a']
  sha256 := UUID.hex (samplePlatform.sha256 nullGzip)
  size := 28
  rawBytes := 4

theorem verified_artifact_is_inside_linked :
    ∃ parents name base below data,
      localNames (ascii ['l', '/', '.', '/', 'a']) = some (parents ++ [name]) ∧
      linkedTree.evalSymlinks [[0x6f]] = .ok base ∧
      linkedTree.evalSymlinks ([[0x6f]] ++ parents) = .ok (base ++ below) ∧
      linkedTree.get (base ++ below ++ [name]) = some (.file data) ∧
      data.length ≤ maxCompressedArtifact ∧ (data.length : ℤ) = 28 ∧
      UUID.hex (samplePlatform.sha256 data) = UUID.hex (samplePlatform.sha256 nullGzip) ∧
      linkedReference.WellFormed samplePlatform data := by
  have hverified : verifyArtifact samplePlatform linkedTree [[0x6f]] linkedReference = .ok () := rfl
  exact verified_artifact_is_inside hverified

/-- A returned reference is accepted exactly if the file is there as it was written, through any
crash and power failure; no two written files may have the same digest. -/
theorem recorded_reference_verifies_iff (h : Relation.ReflTransGen (World.Next Z) {} w)
    (r : Returned) (hr : r ∈ w.returned) (ref : ArtifactRef) (hok : r.result = .ok (some ref))
    (hdigest : ∀ c ∈ w.files, ∀ c' ∈ w.files,
      Z.sha256 (c.content Z) = Z.sha256 (c'.content Z) → c.content Z = c'.content Z)
    (t : Tree) (root : Path) (hshows : Shows t root w r.call.dir r.call.base) :
    verifyArtifact Z t root ref = .ok () ↔
      w.disk.read r.call.target = some (r.call.content Z) := by
  have hinv := inv_of_reachable h
  have hholds := hinv.returned r hr
  obtain ⟨i, hi⟩ := Option.ne_none_iff_exists'.mp (hholds.opened _ hok)
  obtain ⟨hfile, hsettled⟩ := hholds.file i hi
  rw [hok] at hsettled
  obtain ⟨-, href, hbounded⟩ := hsettled
  have href := href.symm
  obtain ⟨-, hsum, -, -⟩ := reference_fields href
  have hcall : r.call ∈ w.files := List.mem_of_getElem? hfile
  have hget := hshows.file
  constructor
  · intro hverified
    obtain ⟨names, data, hnames, hread, hcheck⟩ := verifyArtifact_eq_ok_iff.mp hverified
    cases (names_reference href).symm.trans hnames
    obtain ⟨-, -, -, -, -, hstat, -⟩ := readArtifact_eq_ok_iff.mp hread
    obtain ⟨-, q, hq, -, hnode⟩ := Tree.stat_concat hstat rfl
    cases (evalSymlinks_of_dir hshows.isDir).symm.trans hq
    rw [hget] at hnode
    obtain ⟨data', hdata', hnode⟩ := Option.map_eq_some_iff.mp hnode
    cases hnode
    obtain ⟨_, -, -, c', hc', -, -, hcontent, -⟩ := (hinv.seals r.call.dir r.call.base).read hdata'
    have hsame : Z.sha256 data = Z.sha256 (r.call.content Z) :=
      hex_injective ((hash_of_check hcheck).trans hsum)
    rw [hcontent] at hsame
    have heq := hdigest c' (List.mem_of_getElem? hc') r.call hcall hsame
    exact hdata'.trans (congrArg some (hcontent.trans heq))
  · intro hread
    have hnode := hget.trans (congrArg (·.map Node.file) hread)
    exact accepts_written (hinv.accepted r.call hcall) hbounded href hshows.isDir hnode

/-- The directory of the two calls after a power failure, with the temporary file that one of them
left. -/
def leftTree : Tree where
  nodes := [([[0x6f]], .dir), ([[0x6f], [0x62]], .file nullGzip),
    ([[0x6f], [0x61]], .file (ascii ['n', 'u', 'l', 'l', '\n'])),
    ([[0x6f], ascii ['.', 'm', 'e', 't', 'a', 'd', 'a', 't', 'a', '-', '1']],
      .file (ascii ['n', 'u', 'l', 'l', '\n']))]
  closed := by decide

theorem recorded_reference_verifies_iff_left :
    ∃ w r ref, Relation.ReflTransGen (World.Next samplePlatform) {} w ∧ w.files.length = 2 ∧
      r ∈ w.returned ∧ r.result = .ok (some ref) ∧
      (verifyArtifact samplePlatform leftTree [[0x6f]] ref = .ok () ↔
        w.disk.read r.call.target = some (r.call.content samplePlatform)) := by
  have hnext := (run_next run_interleaved).tail (.inr (powerFailure_lose fun _ => false))
  refine ⟨_, ⟨sampleCall .writeCompressed true, some 1, _⟩, _, hnext, rfl, List.mem_cons_self, rfl,
    recorded_reference_verifies_iff hnext _ List.mem_cons_self _ rfl ?_ leftTree [[0x6f]]
      ⟨rfl, rfl⟩⟩
  intro c hc c' hc'
  have hfiles : ∀ c ∈ [sampleCall .writeJSONArtifact false, sampleCall .writeCompressed true],
      ∀ c' ∈ [sampleCall .writeJSONArtifact false, sampleCall .writeCompressed true],
      samplePlatform.sha256 (c.content samplePlatform) =
        samplePlatform.sha256 (c'.content samplePlatform) →
      c.content samplePlatform = c'.content samplePlatform := by decide +kernel
  exact hfiles c hc c' hc'

end Recorded

end IngestKit.Artifacts
