import IngestKit.Archive.Looks

/-! The archive directory is made and the files of the inventory are copied into it. -/
namespace IngestKit.Archive
open Files Interference
open Interference.Program (each)

/-- The archive stands in directories, and has only directories and files below it. -/
structure Owned (destination : Path) (t : Tree) : Prop where
  above : ∀ q, q <+: destination → t.get q = some .dir
  below : ∀ q n, destination <+: q → t.get q = some n → n = .dir ∨ ∃ b, n = .file b

namespace Owned
variable {destination p q : Path} {t u : Tree} {n : Node} {b c : Bytes}

theorem linkAt (h : Owned destination t) (hq : destination <+: q ∨ q <+: destination) :
    t.linkAt q = false := by
  cases hg : t.get q with
  | none => exact Tree.linkAt_of_get_eq_none hg
  | some n =>
    rw [Tree.linkAt_of_get hg]
    rcases hq with hq | hq
    · rcases h.below q n hq hg with rfl | ⟨b, rfl⟩ <;> rfl
    · rw [h.above q hq] at hg
      cases hg
      rfl

theorem clear (h : Owned destination t) (hp : destination <+: p) : t.Clear p := fun q hq =>
  h.linkAt (List.prefix_or_prefix_of_prefix hp ((List.mem_inits q p).mp hq))

theorem locate_eq {follow : Bool} (h : Owned destination t) (hp : destination <+: p)
    (hl : t.locate follow p = .ok q) : q = p :=
  Tree.locate_eq ((h.clear hp).of_isPrefix (List.dropLast_prefix p))
    (fun _ => h.linkAt (.inl hp)) hl

theorem not_special (h : Owned destination t) (hp : destination <+: p) (pipe : Bool)
    (s : Bytes) : t.get p ≠ some (.special pipe s) := fun hg => by
  rcases h.below p _ hp hg with hn | ⟨b, hn⟩ <;> cases hn

theorem put (h : Owned destination t) (hu : t.put p n = some u) (hp : t.get p ≠ some .dir)
    (hn : n = .dir ∨ ∃ b, n = .file b) : Owned destination u := by
  refine ⟨fun q hq => ?_, fun q m hq hm => ?_⟩
  · have hne : q ≠ p := fun heq => hp (heq ▸ h.above q hq)
    rw [Tree.get_put hu, if_neg hne, h.above q hq]
  · rw [Tree.get_put hu] at hm
    split_ifs at hm
    · cases hm
      exact hn
    · exact h.below q m hq hm

theorem remove (h : Owned destination t) (hu : t.remove p = some u) (hp : ¬p <+: destination) :
    Owned destination u := by
  refine ⟨fun q hq => ?_, fun q m hq hm => ?_⟩
  · have hne : q ≠ p := fun heq => hp (heq ▸ hq)
    rw [Tree.get_remove hu, if_neg hne, h.above q hq]
  · rw [Tree.get_remove hu] at hm
    split_ifs at hm
    exact h.below q m hq hm

theorem mkdir (h : Owned destination t) (hu : t.mkdir p = .ok u) : Owned destination u := by
  obtain ⟨q, -, hnone, hput⟩ := Tree.mkdir_eq_ok hu
  exact h.put hput (by rw [hnone]; nofun) (.inl rfl)

theorem create (h : Owned destination t) (hp : destination <+: p) (hu : t.create p = .ok u) :
    Owned destination u ∧ u.get p = some (.file []) ∧ ∀ q, q ≠ p → u.get q = t.get q := by
  obtain ⟨q, hl, hq⟩ := Tree.create_eq_ok hu
  obtain rfl := h.locate_eq hp hl
  rcases hq with ⟨hdir, hput⟩ | ⟨pipe, s, hs⟩
  · refine ⟨h.put hput hdir (.inr ⟨[], rfl⟩), ?_, fun r hr => ?_⟩
    · rw [Tree.get_put hput, if_pos rfl]
    · rw [Tree.get_put hput, if_neg hr]
  · exact absurd hs (h.not_special hp pipe s)

theorem append (h : Owned destination t) (hp : destination <+: p)
    (hu : t.append p b = .ok (q, c, u)) :
    q = p ∧ Owned destination u ∧ (∃ old, t.get p = some (.file old) ∧ c = old ++ b) ∧
      u.get p = some (.file c) ∧ ∀ q, q ≠ p → u.get q = t.get q := by
  obtain ⟨hl, hq⟩ := Tree.append_eq_ok hu
  obtain rfl := h.locate_eq hp hl
  rcases hq with ⟨old, hg, hc, hput⟩ | ⟨pipe, s, hs⟩
  · refine ⟨rfl, h.put hput (by rw [hg]; nofun) (.inr ⟨c, rfl⟩), ⟨old, hg, hc⟩, ?_,
      fun r hr => ?_⟩
    · rw [Tree.get_put hput, if_pos rfl]
    · rw [Tree.get_put hput, if_neg hr]
  · exact absurd hs (h.not_special hp pipe s)

end Owned

theorem owned_congr {destination : Path} {t u : Tree} (h : Owned destination t)
    (hget : ∀ q, destination <+: q ∨ q <+: destination → u.get q = t.get q) :
    Owned destination u :=
  ⟨fun q hq => (hget q (.inr hq)).trans (h.above q hq),
    fun q n hq hn => h.below q n hq ((hget q (.inl hq)).symm.trans hn)⟩

section Writes
variable {δ : Type} {host : Host δ} {destination p : Path} {paths : List Bytes}
  {I : Disk δ → Prop} {d : Disk δ}

theorem ensures_mkdir {Q : Except Errno Unit → Disk δ → Prop} (hI : Private destination I)
    (hd : I d) (hok : ∀ d u, I d → d.tree.mkdir p = .ok u → Q (.ok ()) { d with tree := u })
    (herror : ∀ d e, I d → Q (.error e) d) :
    Ensures host destination paths Q (call (.mkdir p)) d := by
  refine ensures_call hI hd fun d hd _ => ⟨fun _ => keeps_refl d, ?_⟩
  simp only [respond]
  cases hm : d.tree.mkdir p with
  | error e => exact ⟨keeps_refl d, herror d e hd⟩
  | ok u =>
    obtain ⟨q, -, hnone, hput⟩ := Tree.mkdir_eq_ok hm
    refine ⟨keeps_of_fresh rfl fun r b hr => ?_, hok d u hd hm⟩
    have hne : r ≠ q := fun heq => by rw [heq, hnone] at hr; cases hr
    exact (Tree.get_put hput r).trans ((if_neg hne).trans hr)

theorem ensures_orExists {existOk : Bool} {e : Errno} {Q : Disk δ → Prop}
    (hI : Private destination I) (hd : I d) (h : existOk = true → ∀ d, I d → Q d) :
    Ensures host destination paths (fun _ d => Q d) (orExists existOk p e) d := by
  cases existOk with
  | false => trivial
  | true =>
    exact (ensures_look rfl hI hd).bind fun _ d hd => ensures_failIf fun _ => h rfl d hd

theorem ensures_mkdirOne {existOk : Bool} {Q : Disk δ → Prop} (hI : Private destination I)
    (hd : I d) (hmade : ∀ d u, I d → d.tree.mkdir p = .ok u → Q { d with tree := u })
    (h : existOk = true → ∀ d, I d → Q d) :
    Ensures host destination paths (fun _ d => Q d) (mkdirOne existOk p) d := by
  refine (ensures_mkdir (Q := fun x d => match x with | .ok _ => Q d | .error _ => I d) hI hd hmade
    fun d e hd => hd).bind fun x d hx => ?_
  cases x with
  | ok _ => exact hx
  | error e =>
    cases e with
    | noEntry => trivial
    | _ => exact ensures_orExists hI hx h

/-- Directories are made that keep `I`, and the last one gives `Q`. -/
theorem ensures_mkdirParents {l : List Name} {existOk : Bool} {Q : Disk δ → Prop}
    (hI : Private destination I) (hd : I d)
    (hmk : ∀ d p u, I d → p <+: l.reverse → d.tree.mkdir p = .ok u → I { d with tree := u })
    (hmade : ∀ d u, I d → d.tree.mkdir l.reverse = .ok u → Q { d with tree := u })
    (h : existOk = true → ∀ d, I d → Q d) :
    Ensures host destination paths (fun _ d => Q d) (mkdirParents existOk l) d := by
  induction l generalizing existOk Q d with
  | nil => exact ensures_mkdirOne hI hd hmade h
  | cons x up ih =>
    refine (ensures_mkdir (Q := fun x d => match x with | .ok _ => Q d | .error _ => I d) hI hd
      hmade fun d e hd => hd).bind fun r d hr => ?_
    have hup : up.reverse <+: (x :: up).reverse := by
      rw [List.reverse_cons]
      exact List.prefix_append _ _
    cases r with
    | ok _ => exact hr
    | error e =>
      cases e with
      | noEntry =>
        refine Ensures.bind (Q := fun _ d => I d) (ih hr
          (fun d p u hd hp => hmk d p u hd (hp.trans hup))
          (fun d u hd => hmk d _ u hd hup) fun _ _ hd => hd) fun _ d hd => ?_
        exact ensures_mkdirOne hI hd hmade h
      | _ => exact ensures_orExists hI hr h

theorem ensures_create {Q : Disk δ → Prop} (hI : Private destination I) (hd : I d)
    (hown : ∀ d, I d → Owned destination d.tree) (hp : destination <+: p)
    (hnone : ∀ d b, I d → .archived p b ∉ d.log)
    (h : ∀ d u, I d → Owned destination u → u.get p = some (.file []) →
      (∀ q, q ≠ p → u.get q = d.tree.get q) → Q { d with tree := u }) :
    Ensures host destination paths (fun x d => ∀ a, x = .ok a → Q d) (call (.create p)) d := by
  refine ensures_call hI hd fun d hd _ => ⟨fun _ => keeps_refl d, ?_⟩
  simp only [respond]
  cases hc : d.tree.create p with
  | error e => exact ⟨keeps_refl d, fun _ h => by cases h⟩
  | ok u =>
    obtain ⟨hu, hget, hsame⟩ := (hown d hd).create hp hc
    exact ⟨keeps_of_write hp (fun b => hnone d b hd) rfl hsame, fun _ _ => h d u hd hu hget hsame⟩

/-- A write that stops part way has changed one path of the archive. -/
theorem keeps_partial_write (hown : Owned destination d.tree) (hp : destination <+: p)
    (hnone : ∀ b, .archived p b ∉ d.log) (b : Bytes) :
    Keeps destination paths d (d.write p b fun _ _ => []).2 := by
  unfold Disk.write
  cases ha : d.tree.append p b with
  | error e => exact keeps_refl d
  | ok r =>
    obtain ⟨q, c, u⟩ := r
    obtain ⟨-, -, -, -, hsame⟩ := hown.append hp ha
    exact keeps_of_write hp hnone (List.append_nil _) hsame

end Writes

/-- While files are copied, the log says which ones are in the archive. -/
structure Copying {δ : Type} (destination : Path) (done : List (Entry δ)) (d : Disk δ) :
    Prop where
  owned : Owned destination d.tree
  log : ∀ x ∈ d.log, ∃ e ∈ done, ∃ b, x = .archived (destination ++ e.path) b
  copied : ∀ e ∈ done, ∃ b, .archived (destination ++ e.path) b ∈ d.log ∧
    d.tree.get (destination ++ e.path) = some (.file b)

section Copying
variable {δ : Type} {host : Host δ} {destination root : Path} {paths : List Bytes}
  {done : List (Entry δ)} {x : Entry δ} {d : Disk δ}

theorem private_copying : Private destination (Copying destination done : Disk δ → Prop) := by
  intro d e hlog hget hd
  refine ⟨owned_congr hd.owned hget, by rw [hlog]; exact hd.log, fun x hx => ?_⟩
  obtain ⟨b, hb, hfile⟩ := hd.copied x hx
  exact ⟨b, hlog ▸ hb, (hget _ (.inl (List.prefix_append _ _))).trans hfile⟩

theorem Copying.tree {t : Tree} (h : Copying destination done d) (ht : Owned destination t)
    (hget : ∀ e ∈ done, t.get (destination ++ e.path) = d.tree.get (destination ++ e.path)) :
    Copying destination done { d with tree := t } := by
  refine ⟨ht, h.log, fun e he => ?_⟩
  obtain ⟨b, hb, hfile⟩ := h.copied e he
  exact ⟨b, hb, (hget e he).trans hfile⟩

theorem Copying.mkdir {p : Path} {u : Tree} (h : Copying destination done d)
    (hu : d.tree.mkdir p = .ok u) : Copying destination done { d with tree := u } := by
  obtain ⟨q, -, hnone, hput⟩ := Tree.mkdir_eq_ok hu
  refine h.tree (h.owned.mkdir hu) fun e he => ?_
  obtain ⟨b, -, hfile⟩ := h.copied e he
  have hne : destination ++ e.path ≠ q := fun heq => by rw [heq, hnone] at hfile; cases hfile
  rw [Tree.get_put hput, if_neg hne]

theorem Copying.not_archived (h : Copying destination done d)
    (hx : x.path ∉ done.map (·.path)) (b : Bytes) :
    .archived (destination ++ x.path) b ∉ d.log := by
  intro hb
  obtain ⟨e, he, c, heq⟩ := h.log _ hb
  have hpath := List.append_cancel_left (Effect.archived.inj heq).1
  exact hx (hpath ▸ List.mem_map_of_mem he)

/-- The file is written whole. -/
theorem Copying.snoc {u : Tree} {b : Bytes} (h : Copying destination done d)
    (hx : x.path ∉ done.map (·.path)) (hu : Owned destination u)
    (hget : u.get (destination ++ x.path) = some (.file b))
    (hsame : ∀ q, q ≠ destination ++ x.path → u.get q = d.tree.get q) :
    Copying destination (done ++ [x]) ⟨u, d.log ++ [.archived (destination ++ x.path) b]⟩ := by
  refine ⟨hu, fun y hy => ?_, fun e he => ?_⟩
  · rcases List.mem_append.mp hy with hy | hy
    · obtain ⟨e, he, c, hc⟩ := h.log y hy
      exact ⟨e, List.mem_append_left _ he, c, hc⟩
    · exact ⟨x, List.mem_append_right _ (List.mem_singleton_self x), b, List.mem_singleton.mp hy⟩
  · rcases List.mem_append.mp he with he | he
    · obtain ⟨c, hc, hfile⟩ := h.copied e he
      have hne : destination ++ e.path ≠ destination ++ x.path := fun heq =>
        hx (List.append_cancel_left heq ▸ List.mem_map_of_mem he)
      exact ⟨c, List.mem_append_left _ hc, (hsame _ hne).trans hfile⟩
    · rw [List.mem_singleton.mp he]
      exact ⟨b, List.mem_append_right _ (List.mem_singleton_self _), hget⟩

theorem keeps_archived {u : Tree} {p : Path} {b : Bytes} (hp : destination <+: p)
    (hrecord : p ≠ destination ++ [manifestName]) (hnone : ∀ b, .archived p b ∉ d.log)
    (hget : u.get p = some (.file b)) (hsame : ∀ q, q ≠ p → u.get q = d.tree.get q) :
    Keeps destination paths d ⟨u, d.log ++ [.archived p b]⟩ := by
  have hw : Keeps destination paths d { d with tree := u } := keeps_of_write hp hnone rfl hsame
  refine ⟨fun hd => (hw.1 hd).snoc (fun q c hq => ?_) nofun nofun, hw.2.snoc _⟩
  cases hq
  exact ⟨hp, hrecord, hget⟩

/-- A file that is no link is copied whole or the script stops. -/
theorem ensures_copyfile (hd : Copying destination done d) (hx : x.path ∉ done.map (·.path))
    (hrecord : x.path ≠ [manifestName]) :
    Ensures host destination paths (fun _ d => Copying destination (done ++ [x]) d)
      (copyfile (root ++ x.path) (destination ++ x.path)) d := by
  have hp : destination <+: destination ++ x.path := List.prefix_append _ _
  have hI : Private destination (Copying destination done : Disk δ → Prop) := private_copying
  refine ensures_query_bind rfl hI hd fun d hd _ => ensures_failIf_bind fun _ => ?_
  refine ensures_query_bind rfl hI hd fun d hd _ => ensures_failIf_bind fun _ => ?_
  refine ensures_query_bind rfl hI hd fun d hd _ => ensures_failIf_bind fun _ => ?_
  refine ensures_query_bind rfl hI hd fun d hd hlink => ?_
  simp only [respond, isSymlink_of_unlinked hlink]
  refine ensures_query_bind rfl hI hd fun d hd _ => ensures_orRaise_bind fun b _ => ?_
  refine (ensures_create (Q := fun d => Copying destination done d ∧
    d.tree.get (destination ++ x.path) = some (.file [])) hI hd (fun d hd => hd.owned) hp
    (fun d b hd => hd.not_archived hx b) fun d u hd hu hget hsame => ⟨hd.tree hu ?_, hget⟩).bind
    fun r d hr => ensures_orRaise_bind fun a ha => ?_
  · intro e he
    refine hsame _ fun heq => hx ?_
    exact List.append_cancel_left heq ▸ List.mem_map_of_mem he
  · have hJ : Private destination fun d : Disk δ => Copying destination done d ∧
        d.tree.get (destination ++ x.path) = some (.file []) := fun d e hlog hget hd =>
      ⟨hI d e hlog hget hd.1, (hget _ (.inl hp)).trans hd.2⟩
    refine Ensures.bind (Q := fun r d => ∀ a, r = .ok a → Copying destination (done ++ [x]) d)
      (ensures_call hJ (hr a ha) fun d hd _ => ⟨fun progress => keeps_partial_write hd.1.owned hp
        (hd.1.not_archived hx) _, ?_⟩) fun r d hr => ensures_orRaise hr
    simp only [respond, Disk.write]
    cases ha : d.tree.append (destination ++ x.path) b with
    | error e => exact ⟨keeps_refl d, fun _ h => by cases h⟩
    | ok r =>
      obtain ⟨q, c, u⟩ := r
      obtain ⟨rfl, hu, -, hget, hsame⟩ := hd.1.owned.append hp ha
      refine ⟨keeps_archived hp (fun heq => hrecord (List.append_cancel_left heq))
        (hd.1.not_archived hx) hget hsame, fun _ _ => hd.1.snoc hx hu hget hsame⟩

theorem ensures_archiveFile (hd : Copying destination done d) (hx : x.path ∉ done.map (·.path))
    (hrecord : x.path ≠ [manifestName]) :
    Ensures host destination paths (fun _ d => Copying destination (done ++ [x]) d)
      (archiveFile root destination x) d := by
  refine Ensures.bind (Q := fun _ d => Copying destination done d)
    (ensures_mkdirParents private_copying hd (fun d p u hd _ => hd.mkdir)
      (fun d u hd => hd.mkdir) fun _ _ hd => hd) fun _ d hd => ?_
  refine (ensures_copyfile hd hx hrecord).bind fun _ d hd => ?_
  refine ensures_query_bind rfl private_copying hd fun d hd _ => ensures_orRaise_bind fun _ _ => ?_
  refine ensures_query_bind rfl private_copying hd fun d hd _ => ?_
  exact ensures_orRaise fun _ _ => hd

/-- After the loop every file of the inventory has been copied. -/
theorem ensures_archiveFiles {files : List (Entry δ)}
    (hd : Copying destination [] d) (hfiles : Listed (· ≠ [manifestName]) files) :
    Ensures host destination paths (fun _ d => Copying destination files d)
      (each files (archiveFile root destination)) d := by
  refine ensures_each (J := fun done d => Copying destination done d) files hd
    fun done x rest d hl hd => ensures_archiveFile hd (fun hx => ?_)
      (hfiles.all x (hl ▸ List.mem_append_right _ List.mem_cons_self))
  have hnodup := hfiles.nodup
  rw [hl, List.map_append, List.map_cons] at hnodup
  exact (List.nodup_append.mp hnodup).2.2 _ hx _ List.mem_cons_self rfl

end Copying

end IngestKit.Archive
