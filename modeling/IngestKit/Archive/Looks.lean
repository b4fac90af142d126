import IngestKit.Archive.Steps

/-! The parts of the script that only look at the disk: the checks of the archive's path, the digest
of a file and the inventory. -/
namespace IngestKit.Archive
open Files Interference
open Interference.Program (each)

section Looks
variable {δ : Type} {host : Host δ} {destination root : Path} {paths : List Bytes}
  {I : Disk δ → Prop} {d : Disk δ}

theorem ensures_each {γ : Type} {f : γ → Script δ Unit} {J : List γ → Disk δ → Prop} (l : List γ)
    (h0 : J [] d) (hstep : ∀ done x rest d, l = done ++ x :: rest → J done d →
      Ensures host destination paths (fun _ d => J (done ++ [x]) d) (f x) d) :
    Ensures host destination paths (fun _ d => J l d) (each l f) d :=
  safe_each l h0 hstep

theorem ensures_foldlM {β γ : Type} {f : β → γ → Script δ β} {J : List γ → β → Disk δ → Prop}
    (l : List γ) {b : β} (h0 : J [] b d)
    (hstep : ∀ done x rest b d, l = done ++ x :: rest → J done b d →
      Ensures host destination paths (fun b d => J (done ++ [x]) b d) (f b x) d) :
    Ensures host destination paths (fun b d => J l b d) (l.foldlM f b) d :=
  safe_foldlM l h0 hstep

theorem mem_parents {p q : Path} : q ∈ parents p ↔ q <+: p := by
  unfold parents
  rw [List.mem_reverse, List.mem_inits]

/-- A check in a loop whose result is not used later. -/
theorem ensures_refusals (hI : Private destination I) (hd : I d) (l : List Path)
    (message : String) :
    Ensures host destination paths (fun _ d => I d) (each l fun p => do
      failIf (← call (.isSymlink p)) (.valueError message)) d :=
  ensures_each (J := fun _ => I) l hd fun _ _ _ _ _ hd =>
    ensures_query_bind rfl hI hd fun _ hd _ => ensures_failIf fun _ => hd

theorem private_linkAt {l : List Path} (hl : ∀ q ∈ l, q <+: destination) :
    Private destination fun d : Disk δ => ∀ q ∈ l, d.tree.linkAt q = false :=
  fun _ _ _ hget hd q hq => (Tree.linkAt_congr (hget q (.inr (hl q hq)))).trans (hd q hq)

/-- After its checks no symbolic link leads to the archive. -/
theorem ensures_refuseArchiveSymlinks (hI : Private destination I) (hd : I d) :
    Ensures host destination paths (fun _ d => I d ∧ d.tree.Clear destination)
      (refuseArchiveSymlinks destination) d := by
  have hloop : Ensures host destination paths
      (fun _ d => I d ∧ ∀ q ∈ parents destination, d.tree.linkAt q = false)
      (refuseArchiveSymlinks destination) d := by
    refine ensures_each (J := fun done d => I d ∧ ∀ q ∈ done, d.tree.linkAt q = false) _
      ⟨hd, nofun⟩ fun done x rest d hl hd => ?_
    have hall : ∀ q ∈ done ++ [x], q <+: destination := fun q hq =>
      mem_parents.mp (hl ▸ List.mem_append.mpr ((List.mem_append.mp hq).imp_right fun hq =>
        List.mem_cons.mpr (.inl (List.mem_singleton.mp hq))))
    have hdone : ∀ q ∈ done, q <+: destination := fun q hq =>
      hall q (List.mem_append_left _ hq)
    refine ensures_query_bind rfl (hI.and (private_linkAt hdone)) hd fun d hd _ => ?_
    refine ensures_failIf fun hx => ⟨hd.1, fun q hq => ?_⟩
    rcases List.mem_append.mp hq with hq | hq
    · exact hd.2 q hq
    · rw [List.mem_singleton.mp hq]
      by_contra hlink
      have hsym := Tree.isSymlink_of_linkAt (Bool.eq_true_of_not_eq_false hlink)
      exact Bool.false_ne_true (hx.symm.trans hsym)
  refine Safe.mono hloop fun _ d hd => ⟨hd.1, fun q hq => ?_⟩
  exact hd.2 q (mem_parents.mpr ((List.mem_inits q destination).mp hq))

theorem ensures_hashFile (hI : Private destination I) (hd : I d) (p : Path) :
    Ensures host destination paths
      (fun h d => I d ∧ ∃ b, d.tree.read p = .ok b ∧ h = host.hash b) (hashFile host p) d := by
  refine ensures_query_bind rfl hI hd fun d hd _ => ?_
  exact ensures_orRaise_bind fun b hb => ⟨hd, b, hb, rfl⟩

end Looks

/-- The inventory names each file once, and all its paths satisfy `B`. -/
structure Listed {δ : Type} (B : Path → Prop) (files : List (Entry δ)) : Prop where
  nodup : (files.map (·.path)).Nodup
  all : ∀ e ∈ files, B e.path

section Inventory
variable {δ : Type} {host : Host δ} {destination root : Path} {paths : List Bytes}
  {B : Path → Prop} {I : Disk δ → Prop} {d : Disk δ}

theorem map_path_setEntry (files : List (Entry δ)) (e : Entry δ) :
    (setEntry files e).map (·.path) = files.map (·.path) ∨
      e.path ∉ files.map (·.path) ∧
        (setEntry files e).map (·.path) = files.map (·.path) ++ [e.path] := by
  unfold setEntry
  split_ifs with h
  · refine .inl ?_
    rw [List.map_map]
    refine List.map_congr_left fun f _ => ?_
    by_cases hf : f.path = e.path
    · rw [Function.comp_apply, if_pos hf, hf]
    · rw [Function.comp_apply, if_neg hf]
  · refine .inr ⟨fun he => h ?_, by rw [List.map_append, List.map_singleton]⟩
    obtain ⟨f, hf, hfe⟩ := List.mem_map.mp he
    exact List.any_eq_true.mpr ⟨f, hf, by simpa using hfe⟩

theorem Listed.setEntry {files : List (Entry δ)} {e : Entry δ} (h : Listed B files)
    (he : B e.path) : Listed B (setEntry files e) := by
  have hall : ∀ p ∈ files.map (·.path), B p := fun p hp => by
    obtain ⟨f, hf, rfl⟩ := List.mem_map.mp hp
    exact h.all f hf
  rcases map_path_setEntry files e with heq | ⟨hnew, heq⟩
  · refine ⟨by rw [heq]; exact h.nodup, fun f hf => hall _ ?_⟩
    rw [← heq]
    exact List.mem_map_of_mem hf
  · refine ⟨?_, fun f hf => ?_⟩
    · rw [heq]
      exact List.nodup_append.mpr ⟨h.nodup, List.nodup_singleton _, fun a ha b hb hab =>
        hnew (List.mem_singleton.mp hb ▸ hab ▸ ha)⟩
    · have hp : f.path ∈ files.map (·.path) ++ [e.path] := heq ▸ List.mem_map_of_mem hf
      rcases List.mem_append.mp hp with hp | hp
      · exact hall _ hp
      · rw [List.mem_singleton.mp hp]
        exact he

theorem ensures_inspect (hI : Private destination I) (hd : I d) {inv : Inventory δ} {entry : Path}
    (hinv : Listed B inv.files) (hentry : B (entry.drop root.length)) :
    Ensures host destination paths (fun inv d => I d ∧ Listed B inv.files)
      (inspect host root inv entry) d := by
  refine ensures_query_bind rfl hI hd fun d hd _ => ?_
  refine ensures_failIf_bind fun _ => ensures_failIf_bind fun _ => ?_
  refine (ensures_look rfl hI hd).bind fun isDir d hd => ?_
  cases isDir with
  | true => exact ⟨hd, hinv⟩
  | false =>
    refine ensures_query_bind rfl hI hd fun d hd _ => ?_
    refine ensures_failIf_bind fun _ => ?_
    refine ensures_query_bind rfl hI hd fun d hd _ => ?_
    refine ensures_orRaise_bind fun size _ => ?_
    refine (ensures_hashFile hI hd entry).bind fun sha256 d hd => ?_
    exact ⟨hd.1, hinv.setEntry hentry⟩

theorem eq_append_of_mem_rglob {t : Tree} {p q : Path} (h : q ∈ t.rglob p) :
    ∃ l, q = p ++ l := by
  unfold Tree.rglob at h
  split at h
  · obtain ⟨r, -, hr⟩ := List.mem_filterMap.mp h
    split_ifs at hr
    exact ⟨_, (Option.some.inj hr).symm⟩
  · cases h

theorem ensures_entriesOf (hI : Private destination I) (hd : I d) (source : Path) :
    Ensures host destination paths (fun l d => I d ∧ ∀ p ∈ l, ∃ r, p = source ++ r)
      (entriesOf source) d := by
  refine (ensures_look rfl hI hd).bind fun isDir d hd => ?_
  have hsource : ∃ r, source = source ++ r := ⟨[], (List.append_nil source).symm⟩
  cases isDir with
  | false => exact ⟨hd, fun p hp => List.mem_singleton.mp hp ▸ hsource⟩
  | true =>
    refine ensures_query_bind rfl hI hd fun d hd _ => ⟨hd, fun p hp => ?_⟩
    rcases List.mem_cons.mp hp with rfl | hp
    · exact hsource
    · exact eq_append_of_mem_rglob ((List.mem_insertionSort _).mp hp)

theorem ensures_select (hI : Private destination I) (hd : I d) {inv : Inventory δ} {name : Bytes}
    (hinv : Listed B inv.files)
    (hB : ∀ d l, I d → (PurePath.ofText name).isUnsafe = false →
      d.tree.pathExists (root ++ (PurePath.ofText name).parts) = true →
        B ((PurePath.ofText name).parts ++ l)) :
    Ensures host destination paths (fun inv d => I d ∧ Listed B inv.files)
      (select host root inv name) d := by
  refine ensures_failIf_bind fun hsafe => ?_
  refine (ensures_refusals hI hd _ _).bind fun _ d hd => ?_
  refine ensures_query_bind rfl hI hd fun d hd _ => ensures_failIf_bind fun hexists => ?_
  have hparts : ∀ l, B ((PurePath.ofText name).parts ++ l) := fun l =>
    hB d l hd hsafe (by simpa [respond] using hexists)
  refine ensures_failIf_bind fun _ => ?_
  refine (ensures_entriesOf hI hd _).bind ?_
  rintro entries d ⟨hd, hentries⟩
  refine ensures_foldlM (J := fun _ (inv : Inventory δ) d => I d ∧ Listed B inv.files) _
    ⟨hd, hinv⟩ ?_
  rintro done x rest inv d hl ⟨hd, hinv⟩
  refine ensures_inspect hI hd hinv ?_
  obtain ⟨r, rfl⟩ := hentries x (hl ▸ List.mem_append_right _ List.mem_cons_self)
  rw [List.append_assoc, List.drop_left]
  exact hparts r

/-- Every path of the inventory is below a path that was selected and found. -/
theorem ensures_inventory (hI : Private destination I) (hd : I d) {names : List Bytes}
    (hB : ∀ name ∈ names, ∀ d l, I d → (PurePath.ofText name).isUnsafe = false →
      d.tree.pathExists (root ++ (PurePath.ofText name).parts) = true →
        B ((PurePath.ofText name).parts ++ l)) :
    Ensures host destination paths (fun inv d => I d ∧ Listed B inv.files)
      (inventory host root names) d := by
  refine ensures_foldlM (J := fun _ (inv : Inventory δ) d => I d ∧ Listed B inv.files) names
    ⟨hd, List.nodup_nil, nofun⟩ ?_
  rintro done name rest inv d hl ⟨hd, hinv⟩
  exact ensures_select hI hd hinv (hB name (hl ▸ List.mem_append_right _ List.mem_cons_self))

end Inventory

end IngestKit.Archive
