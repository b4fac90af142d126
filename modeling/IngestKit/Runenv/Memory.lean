import IngestKit.Runenv.Docker
import Mathlib.Data.List.Basic

/-! A daemon that keeps its containers and volumes in memory, as an instance of what is assumed of
Docker and Compose. -/
namespace IngestKit.Runenv
open Interference

structure Resource where
  project : Bytes
  label : Bytes
  holder : Option Bytes
  service : Option Service
  deriving DecidableEq

namespace Memory

/-- The volumes of the development stack, as they follow the name of the project. -/
def volumes : List Bytes :=
  [ascii ['_', 'p', 'o', 's', 't', 'g', 'r', 'e', 's', '_', 'd', 'a', 't', 'a'],
    ascii ['_', 'r', 'e', 'd', 'p', 'a', 'n', 'd', 'a', '_', 'd', 'a', 't', 'a']]

def declared (project : Bytes) : Key → Bool
  | .container _ => false
  | .volume name => volumes.any fun v => name = project ++ v

/-- A key that an anonymous volume can have. -/
def anonymous : Key → Bool
  | .container _ => false
  | .volume name => volumes.all fun v => !v.isSuffixOf name

/-- An anonymous volume has the project of its container. -/
def tidy (l : List (Key × Resource)) : Bool :=
  l.all fun e => e.2.holder.all fun id => anonymous e.1 &&
    l.all fun f => decide (f.1 = .container id → f.2.project = e.2.project)

/-- What becomes of the next command: one that fails has done a part of its work, and its output
may say that an address is in use. -/
inductive Fate
  | succeeds
  | fails (inUse : Bool) (progress : ℕ)
  deriving DecidableEq

def Fate.part {α : Type} : Fate → List α → List α
  | .succeeds, l => l
  | .fails _ progress, l => l.take progress

def Fate.reply {α : Type} : Fate → Except Failure α → Except Failure α
  | .succeeds, result => result
  | .fails inUse _, _ => .error ⟨[], inUse, false⟩

/-- `plan` is what the next `up` creates. -/
structure State where
  entries : List (Key × Resource)
  wellFormed : tidy entries = true
  stopped : List Key
  plan : List (Key × Option Bytes × Option Service)
  fate : Fate

def find (l : List (Key × Resource)) (k : Key) : Option Resource :=
  (l.find? fun e => e.1 = k).map Prod.snd

theorem mem_of_find {l : List (Key × Resource)} {k : Key} {r : Resource} (h : find l k = some r) :
    (k, r) ∈ l := by
  obtain ⟨e, he, rfl⟩ := Option.map_eq_some_iff.mp h
  have hkey : e.1 = k := by simpa using List.find?_some he
  subst hkey
  exact List.mem_of_find?_eq_some he

theorem find_cons (e : Key × Resource) (l : List (Key × Resource)) (k : Key) :
    find (e :: l) k = if e.1 = k then some e.2 else find l k := by
  unfold find
  rw [List.find?_cons]
  by_cases hk : e.1 = k
  · simp [hk]
  · simp [hk]

theorem find_filter (q : Key → Bool) (l : List (Key × Resource)) (k : Key) :
    find (l.filter fun e => q e.1) k = if q k then find l k else none := by
  induction l with
  | nil => simp [find]
  | cons e l ih =>
    rw [List.filter_cons]
    by_cases hk : e.1 = k
    · subst hk
      cases hq : q e.1 with
      | true => simp [find_cons]
      | false =>
        rw [hq] at ih
        simpa [hq] using ih
    · cases hq : q e.1 with
      | true => simp [find_cons, hk, ih]
      | false => simp [find_cons, hk, ih]

/-- The resource, and whether it runs. -/
def State.holds (d : State) (k : Key) : Option (Resource × Bool) :=
  (find d.entries k).map fun r => (r, decide (k ∉ d.stopped))

/-- The project has it, with its container if it is an anonymous volume, or declares it. -/
def State.reached (d : State) (project : Bytes) (k : Key) : Bool :=
  (find d.entries k).any fun r => declared project k || decide (r.project = project) &&
    r.holder.all fun id => (find d.entries (.container id)).isSome

def State.reachedKeys (d : State) (project : Bytes) : List Key :=
  (d.entries.map Prod.fst).filter (d.reached project)

def State.serviceKeys (d : State) (project : Bytes) (service : Service) : List Key :=
  (d.reachedKeys project).filter fun k =>
    (find d.entries k).any fun r => r.service = some service

theorem tidy_of_subset {l l' : List (Key × Resource)} (h : tidy l = true)
    (hsub : ∀ e ∈ l', e ∈ l) : tidy l' = true := by
  unfold tidy at h ⊢
  rw [List.all_eq_true] at h ⊢
  intro e he
  have hl := h e (hsub e he)
  rw [Option.all_eq_true] at hl ⊢
  intro id hid
  have hl := hl id hid
  rw [Bool.and_eq_true, List.all_eq_true] at hl ⊢
  exact ⟨hl.1, fun f hf => hl.2 f (hsub f hf)⟩

def State.remove (d : State) (keys : List Key) : State :=
  { d with
    entries := d.entries.filter fun e => decide (e.1 ∉ keys)
    wellFormed := tidy_of_subset d.wellFormed fun _ he => (List.mem_filter.mp he).1 }

/-- Nothing is added under a key in use, nor where the result would not be tidy. -/
def State.add (d : State) (k : Key) (r : Resource) : State :=
  if h : tidy ((k, r) :: d.entries) = true ∧ find d.entries k = none then
    { d with
      entries := (k, r) :: d.entries
      wellFormed := h.1 }
  else d

def creates (project : Bytes) : Key → Bool
  | .container _ => true
  | .volume name => declared project (.volume name)

/-- Only declared volumes are made, and anonymous ones for a container that is there. -/
def create (project token : Bytes) (d : State) (n : Key × Option Bytes × Option Service) :
    State :=
  match n.2.1 with
  | none =>
    if creates project n.1 then d.add n.1 ⟨project, token, none, n.2.2⟩ else d
  | some id =>
    if (find d.entries (.container id)).isSome then d.add n.1 ⟨project, [], some id, n.2.2⟩ else d

def State.effect (d : State) (fate : Fate) : Command → State
  | .up project token => (fate.part d.plan).foldl (create project token) d
  | .down project => d.remove (fate.part (d.reachedKeys project))
  | .stop project => { d with stopped := fate.part (d.reachedKeys project) ++ d.stopped }
  | .setService project service false =>
    { d with stopped := fate.part (d.serviceKeys project service) ++ d.stopped }
  | .setService project service true =>
    { d with
      stopped := d.stopped.filter fun k => k ∉ fate.part (d.serviceKeys project service) }
  | .killConsumer project =>
    { d with stopped := fate.part (d.serviceKeys project .consumer) ++ d.stopped }
  | _ => d

def State.list (d : State) (kind : Key → Option Bytes) (project : Bytes) : List Bytes :=
  (d.entries.filter fun e => decide (e.2.project = project ∧ e.2.holder = none)).filterMap
    fun e => kind e.1

def container? : Key → Option Bytes
  | .container id => some id
  | .volume _ => none

def volume? : Key → Option Bytes
  | .volume name => some name
  | .container _ => none

def State.label? (d : State) (k : Key) : Except Failure Bytes :=
  match find d.entries k with
  | some r => .ok r.label
  | none => .error {}

def State.answer (d : State) : (c : Command) → Answer c
  | .ps project => d.fate.reply (.ok (d.list container? project))
  | .volumeLs project => d.fate.reply (.ok (d.list volume? project))
  | .inspect id => d.fate.reply (d.label? (.container id))
  | .volumeInspect name => d.fate.reply (d.label? (.volume name))
  | .up _ _ | .stop _ | .down _ | .setService _ _ _ | .killConsumer _ | .look _ | .host =>
    d.fate.reply (.ok ())

/-- What others do: they decide what becomes of the next command, and add and remove what is not
in these projects. -/
inductive Change
  | fate (f : Fate)
  | plan (l : List (Key × Option Bytes × Option Service))
  | add (k : Key) (r : Resource)
  | remove (k : Key)

def foreign (mine : List Bytes) (k : Key) (r : Resource) : Bool :=
  mine.all fun p => decide (r.project ≠ p) && !declared p k

def State.disturb (mine : List Bytes) (d : State) : Change → Option State
  | .fate f => some { d with fate := f }
  | .plan l => some { d with plan := l }
  | .add k r => if foreign mine k r then some (d.add k r) else none
  | .remove k => if (find d.entries k).all (foreign mine k) then some (d.remove [k]) else none

def inventory : Inventory State (Resource × Bool) where
  holds := State.holds
  project r := r.1.project
  label r := r.1.label
  holder r := r.1.holder
  declares project name := declared project (.volume name) = true

def daemon (mine : List Bytes) : System Command Answer State Change where
  respond c d := (d.answer c, d.effect d.fate c)
  interrupt c progress d := d.effect (.fails false progress) c
  disturb _ change d := d.disturb mine change

section Conforms
variable {d d' : State} {project token : Bytes} {mine : List Bytes}

theorem holds_eq_some {k : Key} {r : Resource × Bool} (h : d.holds k = some r) :
    find d.entries k = some r.1 := by
  obtain ⟨r', hr', rfl⟩ := Option.map_eq_some_iff.mp h
  exact hr'

theorem holds_eq_none {k : Key} : d.holds k = none ↔ find d.entries k = none :=
  Option.map_eq_none_iff

/-- What `tidy` says of an anonymous volume. -/
theorem tidy_holder {k : Key} {r : Resource} {id : Bytes} (hr : find d.entries k = some r)
    (hholder : r.holder = some id) :
    anonymous k = true ∧ ∀ c, find d.entries (.container id) = some c → c.project = r.project := by
  have h := d.wellFormed
  unfold tidy at h
  rw [List.all_eq_true] at h
  have hr' := h _ (mem_of_find hr)
  rw [Option.all_eq_true] at hr'
  have hid := hr' id hholder
  rw [Bool.and_eq_true, List.all_eq_true] at hid
  refine ⟨hid.1, fun c hc => ?_⟩
  have hproject := of_decide_eq_true (hid.2 _ (mem_of_find hc))
  exact hproject rfl

theorem holder_of_not_anonymous {k : Key} {r : Resource} (hr : find d.entries k = some r)
    (hk : anonymous k = false) : r.holder = none := by
  cases hholder : r.holder with
  | none => rfl
  | some id => cases hk.symm.trans (tidy_holder hr hholder).1

theorem not_anonymous_of_declared {k : Key} (h : declared project k = true) :
    anonymous k = false := by
  cases k with
  | container id => rfl
  | volume name =>
    obtain ⟨v, hv, hname⟩ := List.any_eq_true.mp h
    unfold anonymous
    rw [List.all_eq_false]
    refine ⟨v, hv, ?_⟩
    rw [of_decide_eq_true hname]
    simp

theorem declared_apart {p p' : Bytes} {k : Key} (h : declared p k = true)
    (h' : declared p' k = true) : p = p' := by
  cases k with
  | container id => cases h
  | volume name =>
    obtain ⟨v, hv, hname⟩ := List.any_eq_true.mp h
    obtain ⟨v', hv', hname'⟩ := List.any_eq_true.mp h'
    have hlength : ∀ v ∈ volumes, v.length = 14 := by decide
    have happend : p ++ v = p' ++ v' :=
      (of_decide_eq_true hname).symm.trans (of_decide_eq_true hname')
    exact (List.append_inj' happend ((hlength v hv).trans (hlength v' hv').symm)).1

theorem declared_iff {k : Key} : inventory.Declared project k ↔ declared project k = true := by
  cases k with
  | container id => exact ⟨fun h => h.elim, fun h => by cases h⟩
  | volume name => exact Iff.rfl

/-- The keys that a command may act on are those of its project. -/
theorem reached_iff {k : Key} {r : Resource × Bool} (hr : d.holds k = some r) :
    d.reached project k = true ↔
      r.1.project = project ∧ ¬inventory.Stray d r ∨ inventory.Declared project k := by
  unfold State.reached
  rw [holds_eq_some hr, declared_iff]
  have hstray : (r.1.holder.all fun id => (find d.entries (.container id)).isSome) = true ↔
      ¬inventory.Stray d r := by
    rw [Option.all_eq_true]
    constructor
    · rintro h ⟨id, hid, hnone⟩
      have hsome := h id hid
      rw [holds_eq_none.mp hnone] at hsome
      cases hsome
    · intro h id hid
      cases hc : find d.entries (.container id) with
      | some c => rfl
      | none => exact absurd ⟨id, hid, holds_eq_none.mpr hc⟩ h
  simp only [Option.any_some, Bool.or_eq_true, Bool.and_eq_true, decide_eq_true_eq, hstray]
  exact Or.comm

theorem mem_reachedKeys {k : Key} {r : Resource × Bool} (hr : d.holds k = some r) :
    k ∈ d.reachedKeys project ↔ d.reached project k = true := by
  have hkey : k ∈ d.entries.map Prod.fst :=
    List.mem_map.mpr ⟨_, mem_of_find (holds_eq_some hr), rfl⟩
  unfold State.reachedKeys
  rw [List.mem_filter]
  exact and_iff_right hkey

theorem mem_part {α : Type} {fate : Fate} {l : List α} {x : α} (h : x ∈ fate.part l) : x ∈ l := by
  cases fate with
  | succeeds => exact h
  | fails inUse progress => exact List.mem_of_mem_take h

/-- A change of keys of the project that adds and relabels nothing. -/
theorem controlled_of_keys
    (h : ∀ k, d'.holds k = d.holds k ∨ k ∈ d.reachedKeys project)
    (hsame : ∀ k r', d'.holds k = some r' → find d.entries k = some r'.1) :
    inventory.Controlled project d d' := by
  intro k
  rcases h k with heq | hmem
  · exact .inl heq
  · cases hr : d.holds k with
    | none =>
      refine .inl ?_
      cases hr' : d'.holds k with
      | none => exact hr'.trans hr.symm
      | some r' => cases (holds_eq_none.mp hr).symm.trans (hsame k r' hr')
    | some r =>
      refine .inr ⟨r, hr, (reached_iff hr).mp ((mem_reachedKeys hr).mp hmem), ?_⟩
      intro r' hr'
      have heq : r.1 = r'.1 := Option.some.inj ((holds_eq_some hr).symm.trans (hsame k r' hr'))
      exact ⟨congrArg Resource.project heq.symm, congrArg Resource.label heq.symm,
        congrArg Resource.holder heq.symm⟩

theorem holds_remove (d : State) (keys : List Key) (k : Key) :
    (d.remove keys).holds k = if k ∈ keys then none else d.holds k := by
  unfold State.holds State.remove
  dsimp only
  rw [find_filter fun k => decide (k ∉ keys)]
  by_cases hk : k ∈ keys
  · simp [hk]
  · simp [hk]

theorem controlled_remove {keys : List Key} (h : ∀ k ∈ keys, k ∈ d.reachedKeys project) :
    inventory.Controlled project d (d.remove keys) := by
  apply controlled_of_keys
  · intro k
    rw [holds_remove]
    split
    · rename_i hk
      exact .inr (h k hk)
    · exact .inl rfl
  · intro k r' hr'
    rw [holds_remove] at hr'
    split at hr'
    · cases hr'
    · exact holds_eq_some hr'

/-- Only what runs changes. -/
theorem controlled_stopped {stopped : List Key}
    (h : ∀ k, (k ∈ stopped ↔ k ∈ d.stopped) ∨ k ∈ d.reachedKeys project) :
    inventory.Controlled project d { d with stopped := stopped } := by
  apply controlled_of_keys
  · intro k
    refine (h k).imp_left fun hk => ?_
    have hstopped : decide (k ∉ stopped) = decide (k ∉ d.stopped) :=
      decide_eq_decide.mpr (not_congr hk)
    unfold State.holds
    dsimp only
    rw [hstopped]
  · exact fun k r' hr' => @holds_eq_some { d with stopped := stopped } k r' hr'

theorem mem_serviceKeys {service : Service} {k : Key} (h : k ∈ d.serviceKeys project service) :
    k ∈ d.reachedKeys project :=
  (List.mem_filter.mp h).1

theorem controlled_effect {c : Command} (hc : c.controls? = some project) (fate : Fate) :
    inventory.Controlled project d (d.effect fate c) := by
  have happend : ∀ keys : List Key, (∀ k ∈ keys, k ∈ d.reachedKeys project) →
      inventory.Controlled project d { d with stopped := keys ++ d.stopped } := by
    intro keys hkeys
    apply controlled_stopped
    intro k
    by_cases hk : k ∈ keys
    · exact .inr (hkeys k hk)
    · exact .inl (List.mem_append.trans (or_iff_right hk))
  cases c with
  | stop p =>
    cases hc
    exact happend _ fun k hk => mem_part hk
  | down p =>
    cases hc
    exact controlled_remove fun k hk => mem_part hk
  | setService p service running =>
    cases hc
    cases running with
    | false => exact happend _ fun k hk => mem_serviceKeys (mem_part hk)
    | true =>
      apply controlled_stopped
      intro k
      by_cases hk : k ∈ fate.part (d.serviceKeys project service)
      · exact .inr (mem_serviceKeys (mem_part hk))
      · refine .inl (List.mem_filter.trans (and_iff_left ?_))
        exact decide_eq_true hk
  | killConsumer p =>
    cases hc
    exact happend _ fun k hk => mem_serviceKeys (mem_part hk)
  | _ => cases hc

theorem cleared_effect (hfate : d.fate = .succeeds) :
    inventory.Cleared project d (d.effect d.fate (.down project)) := by
  intro k r hr hwithin
  have hreached : k ∈ d.reachedKeys project := by
    rw [mem_reachedKeys hr, reached_iff hr]
    rcases hwithin with hdeclared | ⟨hp, ⟨id, rfl⟩ | ⟨-, hstray⟩⟩
    · exact .inr hdeclared
    · refine .inl ⟨hp, ?_⟩
      rintro ⟨id', hid, -⟩
      have hnone := holder_of_not_anonymous (holds_eq_some hr) rfl
      cases hnone.symm.trans hid
    · exact .inl ⟨hp, hstray⟩
  rw [hfate]
  exact (holds_remove d _ k).trans (if_pos hreached)

/-- Only under keys that were free is there anything new, and it is as an `up` makes it. -/
structure Adds (project token : Bytes) (d d' : State) : Prop where
  stopped : d'.stopped = d.stopped
  made : ∀ k, find d'.entries k = find d.entries k ∨ find d.entries k = none ∧
    ∀ r, find d'.entries k = some r → r.project = project ∧ (r.holder = none →
      r.label = token ∧ ∀ name, k = .volume name → declared project (.volume name) = true)
  held : inventory.NoStray project d → inventory.NoStray project d'

theorem adds_refl (d : State) : Adds project token d d := ⟨rfl, fun _ => .inl rfl, id⟩

theorem Adds.trans {d'' : State} (h : Adds project token d d') (h' : Adds project token d' d'') :
    Adds project token d d'' where
  stopped := h'.stopped.trans h.stopped
  held := h'.held ∘ h.held
  made k := by
    rcases h'.made k with hsame | ⟨hnone, hnew⟩
    · rw [hsame]
      exact h.made k
    · rcases h.made k with hsame | ⟨hfree, -⟩
      · exact .inr ⟨hsame.symm.trans hnone, hnew⟩
      · exact .inr ⟨hfree, hnew⟩

theorem holds_congr {k : Key} (hstopped : d'.stopped = d.stopped)
    (hfind : find d'.entries k = find d.entries k) : d'.holds k = d.holds k := by
  unfold State.holds
  rw [hstopped, hfind]

theorem raised_of_adds (h : Adds project token d d') : inventory.Raised project token d d' := by
  intro k
  rcases h.made k with hsame | ⟨hnone, hnew⟩
  · exact .inl (holds_congr h.stopped hsame)
  · refine .inr ⟨fun r hr => ?_, fun r' hr' => hnew r'.1 (holds_eq_some hr')⟩
    cases hnone.symm.trans (holds_eq_some hr)

theorem add_cases (d : State) (k : Key) (r : Resource) : d.add k r = d ∨
    find d.entries k = none ∧ (d.add k r).stopped = d.stopped ∧
      ∀ k', find (d.add k r).entries k' = if k = k' then some r else find d.entries k' := by
  unfold State.add
  split
  · rename_i h
    exact .inr ⟨h.2, rfl, find_cons (k, r) d.entries⟩
  · exact .inl rfl

/-- What is new has its container, and no container goes. -/
theorem noStray_add {k : Key} {r : Resource}
    (h : r.project = project → ∀ id, r.holder = some id →
      (find d.entries (.container id)).isSome = true)
    (hd : inventory.NoStray project d) : inventory.NoStray project (d.add k r) := by
  rcases add_cases d k r with hsame | ⟨hnone, -, hfind⟩
  · rw [hsame]
    exact hd
  · have hkept : ∀ k', (find d.entries k').isSome = true →
        (find (d.add k r).entries k').isSome = true := by
      intro k' hk'
      rw [hfind]
      split
      · rfl
      · exact hk'
    rintro k' r' hr' hp ⟨id, hid, hgone⟩
    have hr'' := holds_eq_some hr'
    have hsome : (find d.entries (.container id)).isSome = true := by
      rw [hfind] at hr''
      split at hr''
      · cases hr''
        exact h hp id hid
      · cases hc : find d.entries (.container id) with
        | some c => rfl
        | none =>
          have hold : d.holds k' = some (r'.1, decide (k' ∉ d.stopped)) := by
            unfold State.holds
            rw [hr'']
            rfl
          exact absurd ⟨id, hid, holds_eq_none.mpr hc⟩ (hd k' _ hold hp)
    have hthere := hkept _ hsome
    rw [holds_eq_none.mp hgone] at hthere
    cases hthere

theorem adds_add {k : Key} {r : Resource} (hp : r.project = project)
    (hmade : r.holder = none → r.label = token ∧ ∀ name, k = .volume name →
      declared project (.volume name) = true)
    (hheld : ∀ id, r.holder = some id → (find d.entries (.container id)).isSome = true) :
    Adds project token d (d.add k r) := by
  rcases add_cases d k r with hsame | ⟨hnone, hstopped, hfind⟩
  · rw [hsame]
    exact adds_refl d
  · refine ⟨hstopped, fun k' => ?_, noStray_add fun _ => hheld⟩
    rw [hfind]
    split
    · rename_i hk
      subst hk
      refine .inr ⟨hnone, fun r' hr' => ?_⟩
      cases hr'
      exact ⟨hp, hmade⟩
    · exact .inl rfl

theorem adds_create (d : State) (n : Key × Option Bytes × Option Service) :
    Adds project token d (create project token d n) := by
  obtain ⟨k, holder, service⟩ := n
  unfold create
  cases holder with
  | none =>
    dsimp only
    split
    · rename_i hk
      refine adds_add rfl (fun _ => ⟨rfl, ?_⟩) nofun
      rintro name rfl
      exact hk
    · exact adds_refl d
  | some id =>
    dsimp only
    split
    · rename_i hc
      refine adds_add rfl nofun fun id' hid => ?_
      cases hid
      exact hc
    · exact adds_refl d

theorem adds_effect (fate : Fate) (d : State) :
    Adds project token d (d.effect fate (.up project token)) := by
  have hfold : ∀ (l : List _) (d : State),
      Adds project token d (l.foldl (create project token) d) := by
    intro l
    induction l with
    | nil => exact adds_refl
    | cons n l ih => exact fun d => (adds_create d n).trans (ih _)
  exact hfold _ d

theorem undisturbed_of_holds (h : inventory.holds d' = inventory.holds d) :
    inventory.Undisturbed project d d' := by
  constructor
  · intro k r hr _
    rw [h] at hr
    exact ⟨r, hr, rfl, rfl, rfl⟩
  · intro hd k r hr hp hstray
    unfold Inventory.Stray at hstray
    rw [h] at hr hstray
    exact hd k r hr hp hstray

theorem foreign_iff {k : Key} {r : Resource} : foreign mine k r = true ↔
    ∀ p ∈ mine, r.project ≠ p ∧ declared p k = false := by
  unfold foreign
  simp only [List.all_eq_true, Bool.and_eq_true, decide_eq_true_eq, Bool.not_eq_true']

theorem undisturbed_add {k : Key} {r : Resource} (hforeign : foreign mine k r = true)
    (hp : project ∈ mine) : inventory.Undisturbed project d (d.add k r) := by
  obtain ⟨hproject, hdeclared⟩ := foreign_iff.mp hforeign project hp
  constructor
  · intro k' r' hr' hw
    rcases add_cases d k r with hsame | ⟨-, hstopped, hfind⟩
    · rw [hsame] at hr'
      exact ⟨r', hr', rfl, rfl, rfl⟩
    · have hk := hfind k'
      split at hk
      · rename_i heq
        subst heq
        cases hk.symm.trans (holds_eq_some hr')
        rcases hw with hlabel | hname
        · exact absurd hlabel hproject
        · cases hdeclared.symm.trans (declared_iff.mp hname)
      · have hsame := holds_congr hstopped hk
        exact ⟨r', hsame.symm.trans hr', rfl, rfl, rfl⟩
  · exact noStray_add fun h => absurd h hproject

theorem undisturbed_remove {k : Key} (hforeign : ∀ r, find d.entries k = some r →
    foreign mine k r = true) (hp : project ∈ mine) :
    inventory.Undisturbed project d (d.remove [k]) := by
  have hkept : ∀ k' r', (d.remove [k]).holds k' = some r' → d.holds k' = some r' := by
    intro k' r' hr'
    rw [holds_remove] at hr'
    split at hr'
    · cases hr'
    · exact hr'
  constructor
  · exact fun k' r' hr' _ => ⟨r', hkept k' r' hr', rfl, rfl, rfl⟩
  · rintro hd k' r' hr' hproject ⟨id, hid, hgone⟩
    have hr := hkept k' r' hr'
    refine hd k' r' hr hproject ⟨id, hid, ?_⟩
    have hgone' : (d.remove [k]).holds (.container id) = none := hgone
    rw [holds_remove] at hgone'
    split at hgone'
    · rename_i hk
      cases hc : d.holds (.container id) with
      | none => exact hc
      | some c =>
        have hsame := (tidy_holder (holds_eq_some hr) hid).2 c.1 (holds_eq_some hc)
        rw [List.mem_singleton.mp hk] at hc
        have hother := (foreign_iff.mp (hforeign c.1 (holds_eq_some hc)) project hp).1
        exact absurd (hsame.trans hproject) hother
    · exact hgone'

theorem undisturbed_disturb {change : Change} (h : d.disturb mine change = some d')
    (hp : project ∈ mine) : inventory.Undisturbed project d d' := by
  cases change with
  | fate f =>
    cases h
    exact undisturbed_of_holds rfl
  | plan l =>
    cases h
    exact undisturbed_of_holds rfl
  | add k r =>
    dsimp only [State.disturb] at h
    split at h
    · rename_i hforeign
      cases h
      exact undisturbed_add hforeign hp
    · cases h
  | remove k =>
    dsimp only [State.disturb] at h
    split at h
    · rename_i hforeign
      cases h
      refine undisturbed_remove (fun r hr => ?_) hp
      rw [hr] at hforeign
      exact hforeign
    · cases h

theorem leads_daemon {c : Command} (h : (daemon mine).Leads c d d') :
    ∃ fate, d' = d.effect fate c := by
  rcases h with rfl | ⟨progress, rfl⟩
  · exact ⟨d.fate, rfl⟩
  · exact ⟨_, rfl⟩

theorem reply_eq_ok {α : Type} {fate : Fate} {result : Except Failure α} {a : α}
    (h : fate.reply result = .ok a) : result = .ok a ∧ fate = .succeeds := by
  cases fate with
  | succeeds => exact ⟨h, rfl⟩
  | fails inUse progress => cases h

theorem mem_list {kind : Key → Option Bytes} {k : Key} {r : Resource} {name : Bytes}
    (hr : find d.entries k = some r) (hp : r.project = project) (hnone : r.holder = none)
    (hk : kind k = some name) : name ∈ d.list kind project := by
  unfold State.list
  rw [List.mem_filterMap]
  refine ⟨(k, r), List.mem_filter.mpr ⟨mem_of_find hr, ?_⟩, hk⟩
  exact decide_eq_true ⟨hp, hnone⟩

theorem label_of_ok {k : Key} {label : Bytes} (h : d.fate.reply (d.label? k) = .ok label)
    {r : Resource × Bool} (hr : d.holds k = some r) : r.1.label = label := by
  have hlabel := (reply_eq_ok h).1
  unfold State.label? at hlabel
  rw [holds_eq_some hr] at hlabel
  exact Except.ok.inj hlabel

theorem conforms_daemon (mine : List Bytes) :
    Conforms inventory (daemon mine) (· ∈ mine) where
  apart p p' name _ _ h h' := declared_apart h h'
  container d id r hr := holder_of_not_anonymous (holds_eq_some hr) rfl
  anonymous d name r p hr _ hdeclared :=
    holder_of_not_anonymous (holds_eq_some hr) (not_anonymous_of_declared hdeclared)
  held d k r id c hr hid hc := (tidy_holder (holds_eq_some hr) hid).2 c.1 (holds_eq_some hc)
  reads c d d' hc hup h := by
    obtain ⟨fate, rfl⟩ := leads_daemon h
    cases c with
    | up p token => cases hup
    | stop p => cases hc
    | down p => cases hc
    | setService p service running => cases hc
    | killConsumer p => cases hc
    | _ => rfl
  ps p d ids h id r hr hp := by
    have hlist : d.list container? p = ids := Except.ok.inj (reply_eq_ok h).1
    rw [← hlist]
    exact mem_list (holds_eq_some hr) hp (holder_of_not_anonymous (holds_eq_some hr) rfl) rfl
  volumeLs p d names h name r hr hp hnone := by
    have hlist : d.list volume? p = names := Except.ok.inj (reply_eq_ok h).1
    rw [← hlist]
    exact mem_list (holds_eq_some hr) hp hnone rfl
  inspect id d label h r hr := label_of_ok h hr
  volumeInspect name d label h r hr := label_of_ok h hr
  control c p d d' hc h := by
    obtain ⟨fate, rfl⟩ := leads_daemon h
    exact controlled_effect hc fate
  up p token d d' h := by
    obtain ⟨fate, rfl⟩ := leads_daemon h
    exact raised_of_adds (adds_effect fate d)
  upHeld p token d d' h := by
    obtain ⟨fate, rfl⟩ := leads_daemon h
    exact (adds_effect fate d).held
  down p d h := cleared_effect (reply_eq_ok h).2
  others c change d d' h p hp := undisturbed_disturb h hp

end Conforms

end Memory
end IngestKit.Runenv
