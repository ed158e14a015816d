import HulyGitlab.Sync.BackfillScheduler
import HulyGitlab.Sync.CrashResume
import HulyGitlab.Sync.CursorMoves

/-!
# The window of a backfill

Every tick asks GitLab for what changed since the older of two cursors of the
binding. The cursors are moved by whoever applied something last, forwards and
backwards, and nobody looks at what has been left behind.
-/

namespace HulyGitlab.BackfillWindow

open TxSubscription

/-- The latest version of a record of GitLab. -/
structure Version where
  kind : String
  id : String
  updatedAt : Nat
  deriving DecidableEq

/-- The state of the service, beside the records of the project of a binding. -/
structure Site where
  world : World
  latest : List Version
  /-- The versions that have come to Huly. -/
  applied : List Version

/-- A record of GitLab changes, an event of the engine is handled, time passes, or somebody works
in Huly. The faults are those of the services while the handler runs. -/
inductive Action
  | change (v : Version)
  | dispatch (e : EnqueuedRecord) (fault : World → Service → Option Err)
  | edit (e : LocalEvent) (fault : World → Service → Option Err)
  | elapse (now : Nat)
  | work (docs : OrderedMap Ref HulyDoc)

section Steps

-- What it is for a version to be in Huly is left open.
variable (shown : World → Version → Bool) (env : Env) (binding : BindingRef)

/-- The service comes to a state, in which some of the latest versions are in Huly. -/
def Site.settle (s : Site) (w : World) : Site :=
  { s with world := w, applied := s.applied ++ s.latest.filter (shown w) }

def step (s : Site) : Action → Site
  | .change v =>
      { s with latest := v :: s.latest.filter fun u => ¬ (u.kind = v.kind ∧ u.id = v.id) }
  | .dispatch e fault =>
      s.settle shown ((Arrivals.dispatch { env with fault := fault } e).run s.world).2
  | .edit e fault => s.settle shown ((applyLocal { env with fault := fault } e).run s.world).2
  | .elapse now => s.settle shown { s.world with now := now }
  | .work docs => s.settle shown { s.world with docs := docs }

/-- Before the first event of the binding. -/
def start (w : World) (records : List Version) : Site := ⟨{ w with cursors := .empty }, records, []⟩

/-- The cursors that `resolveSince` reads. -/
def cursor (s : Site) (kind : CursorKind) : Option Nat := s.world.cursors.get? (binding, kind)

/-- What the next tick passes to each backfill. -/
def since (s : Site) : Option Nat :=
  Backfill.resolveSince s.world.now (cursor binding s .issues) (cursor binding s .notes)

/-- The latest version of a record that has not come to Huly. -/
def Site.Pending (s : Site) (v : Version) : Prop := v ∈ s.latest ∧ v ∉ s.applied

instance (s : Site) (v : Version) : Decidable (s.Pending v) := inferInstanceAs (Decidable (_ ∧ _))

/-- The next tick asks for every version that has not come to Huly. -/
def SkipsNothing (s : Site) : Prop :=
  ∀ v, s.Pending v → ∀ t, since binding s = some t → t ≤ v.updatedAt

/-- The cursor an event of the engine may move, and where to. -/
def recordMove (e : EnqueuedRecord) (now : Nat) : Option (CursorKind × Nat) :=
  if e.kind = "issue" then some (.issues, timeOf (e.record.field "updatedAt"))
  else if e.kind = "note" then
    some (.notes, timeOf ((Notes.appliedNote e.record now).get "updatedAt"))
  else none

/-- The cursor a local event may move to the present. -/
def localMove (e : LocalEvent) : Option CursorKind :=
  match e.kind with
  | .issue => some .issues
  | .note => some .notes
  | _ => none

/-- One of the two cursors is not past this time. -/
def Held (s : Site) (kind : CursorKind) (t : Nat) : Prop :=
  ∃ c, cursor binding s kind = some c ∧ c ≤ t

instance (s : Site) (kind : CursorKind) (t : Nat) : Decidable (Held binding s kind t) :=
  inferInstanceAs (Decidable (∃ c ∈ cursor binding s kind, c ≤ t))

/-- Of two kinds, the other one. -/
def other : CursorKind → CursorKind
  | .issues => .notes
  | _ => .issues

/-- A cursor may come to this time: no pending version is before it and before the other cursor. -/
def MayMove (s : Site) (kind : CursorKind) (t : Nat) : Prop :=
  ∀ v, s.Pending v → t ≤ v.updatedAt ∨ Held binding s (other kind) v.updatedAt

instance (s : Site) (kind : CursorKind) (t : Nat) : Decidable (MayMove binding s kind t) :=
  decidable_of_iff (∀ v ∈ s.latest, v ∉ s.applied →
      t ≤ v.updatedAt ∨ Held binding s (other kind) v.updatedAt)
    ⟨fun h v hv => h v hv.1 hv.2, fun h v hv hfresh => h v ⟨hv, hfresh⟩⟩

/-- A record does not change before both cursors, and a handler that may move one of them leaves
nothing behind it. -/
def Orderly (s : Site) : Action → Prop
  | .change v =>
      (cursor binding s .issues = none ∧ cursor binding s .notes = none) ∨
        Held binding s .issues v.updatedAt ∨ Held binding s .notes v.updatedAt
  | .dispatch e _ => e.binding = binding →
      ∀ move ∈ recordMove e s.world.now, MayMove binding s move.1 move.2
  | .edit e _ => e.binding = binding →
      ∀ kind ∈ localMove e, MayMove binding s kind s.world.now
  | .elapse _ => True
  | .work _ => True

instance (s : Site) : (a : Action) → Decidable (Orderly binding s a)
  | .change _ => inferInstanceAs (Decidable (_ ∧ _ ∨ _))
  | .dispatch _ _ => inferInstanceAs (Decidable (_ = _ → _))
  | .edit _ _ => inferInstanceAs (Decidable (_ = _ → _))
  | .elapse _ => inferInstanceAs (Decidable True)
  | .work _ => inferInstanceAs (Decidable True)

end Steps

variable {shown : World → Version → Bool} {env : Env} {binding : BindingRef} {s : Site}

/-- There is no cursor yet, or one of the two is not past this time. -/
def Reaches (binding : BindingRef) (s : Site) (t : Nat) : Prop :=
  (cursor binding s .issues = none ∧ cursor binding s .notes = none) ∨
    Held binding s .issues t ∨ Held binding s .notes t

/-- The older of the two cursors is before all that is pending. -/
def Covered (binding : BindingRef) (s : Site) : Prop :=
  ∀ v, s.Pending v → Reaches binding s v.updatedAt

theorem resolveSince_le {now c t : Nat} {issues notes : Option Nat}
    (hc : issues = some c ∨ notes = some c) (h : Backfill.resolveSince now issues notes = some t) :
    t ≤ c := by
  have hmem : min now c ∈ [issues, notes].filterMap fun cursor => cursor.map (min now) := by
    rw [List.mem_filterMap]
    obtain rfl | rfl := hc
    · exact ⟨some c, List.mem_cons_self, rfl⟩
    · exact ⟨some c, List.mem_cons_of_mem _ List.mem_cons_self, rfl⟩
  exact ((List.min?_eq_some_iff.mp h).2 _ hmem).trans (Nat.min_le_right _ _)

theorem Reaches.since_le {t u : Nat} (h : Reaches binding s u) (hsince : since binding s = some t) :
    t ≤ u := by
  unfold since at hsince
  obtain ⟨hissues, hnotes⟩ | ⟨c, hc, hle⟩ | ⟨c, hc, hle⟩ := h
  · rw [hissues, hnotes] at hsince
    cases hsince
  · exact (resolveSince_le (.inl hc) hsince).trans hle
  · exact (resolveSince_le (.inr hc) hsince).trans hle

theorem Covered.skipsNothing (h : Covered binding s) : SkipsNothing binding s :=
  fun v hv _ hsince => (h v hv).since_le hsince

theorem pending_of_settle {w : World} {v : Version} (h : (s.settle shown w).Pending v) :
    s.Pending v :=
  ⟨h.1, fun hold => h.2 (List.mem_append_left _ hold)⟩

/-- It does not matter which of the two kinds is named first. -/
theorem reaches_iff_kind {kind : CursorKind} (hkind : kind = .issues ∨ kind = .notes) {t : Nat} :
    Reaches binding s t ↔
      (cursor binding s kind = none ∧ cursor binding s (other kind) = none) ∨
        Held binding s kind t ∨ Held binding s (other kind) t := by
  obtain rfl | rfl := hkind
  · exact Iff.rfl
  · exact or_congr and_comm or_comm

/-- A cursor that stands, or moves to an allowed time, leaves nothing behind. -/
theorem covered_settle {w : World} {kind : CursorKind} (hkind : kind = .issues ∨ kind = .notes)
    (hother : w.cursors.get? (binding, other kind) = cursor binding s (other kind))
    (hmoved : w.cursors.get? (binding, kind) = cursor binding s kind ∨
      ∃ t, w.cursors.get? (binding, kind) = some t ∧ MayMove binding s kind t)
    (h : Covered binding s) : Covered binding (s.settle shown w) := by
  intro v hv
  have hpending := pending_of_settle hv
  have hreaches := (reaches_iff_kind hkind).mp (h v hpending)
  rw [reaches_iff_kind hkind]
  have hheld : Held binding s (other kind) v.updatedAt →
      Held binding (s.settle shown w) (other kind) v.updatedAt := by
    rintro ⟨c, hc, hle⟩
    exact ⟨c, hother.trans hc, hle⟩
  obtain hsame | ⟨t, ht, hmay⟩ := hmoved
  · obtain ⟨hkindNone, hotherNone⟩ | ⟨c, hc, hle⟩ | hotherHeld := hreaches
    · exact .inl ⟨hsame.trans hkindNone, hother.trans hotherNone⟩
    · exact .inr (.inl ⟨c, hsame.trans hc, hle⟩)
    · exact .inr (.inr (hheld hotherHeld))
  · obtain hle | hotherHeld := hmay v hpending
    · exact .inr (.inl ⟨t, ht, hle⟩)
    · exact .inr (.inr (hheld hotherHeld))

/-- A handler that moves one cursor at most, and one of the two only to an allowed time. -/
theorem covered_of_onlyMoved {key : BindingRef × CursorKind} {allowed : Nat → Nat → Prop} {w : World}
    (hw : OnlyMoved key allowed s.world w)
    (hmay : ∀ t, key.1 = binding → key.2 = .issues ∨ key.2 = .notes → allowed s.world.now t →
      MayMove binding s key.2 t)
    (h : Covered binding s) : Covered binding (s.settle shown w) := by
  obtain ⟨b, kind⟩ := key
  by_cases hpolled : b = binding ∧ (kind = .issues ∨ kind = .notes)
  · obtain ⟨rfl, hkind⟩ := hpolled
    refine covered_settle hkind (hw.others _ ?_) (hw.moved.imp id ?_) h
    · obtain rfl | rfl := hkind <;> simp [other]
    · exact fun ⟨t, ht, hallowed⟩ => ⟨t, ht, hmay t rfl hkind hallowed⟩
  · have hstands : ∀ kind', kind' = .issues ∨ kind' = .notes →
        w.cursors.get? (binding, kind') = cursor binding s kind' := by
      intro kind' hkind'
      refine hw.others _ fun heq => hpolled ?_
      obtain ⟨rfl, rfl⟩ := Prod.mk.inj heq
      exact ⟨rfl, hkind'⟩
    exact covered_settle (.inl rfl) (hstands _ (.inr rfl)) (.inl (hstands _ (.inl rfl))) h

/-- Which cursor the handler of a record may move, and where to. -/
theorem onlyMoved_dispatch (env : Env) (e : EnqueuedRecord) (w : World) :
    ∃ kind, OnlyMoved (e.binding, kind)
      (fun now t => kind = .issues ∨ kind = .notes → recordMove e now = some (kind, t)) w
      ((Arrivals.dispatch env e).run w).2 := by
  unfold Arrivals.dispatch dispatchRemote
  split_ifs with hissue hmr hpipeline hnote hreview hepic
  · refine ⟨.issues, (Issues.movesOnly_applyRemote env _ _ w).mono fun t ht _ => ?_⟩
    rw [recordMove, if_pos hissue, ht]
  · exact ⟨_, (MergeRequests.movesOnly_applyRemote env _ _ w).mono fun _ _ hk => by simp at hk⟩
  · exact ⟨_, (Pipelines.movesOnly_applyRemote env _ _ w).mono fun _ _ hk => by simp at hk⟩
  · refine ⟨.notes, (Notes.movesOnly_applyRemote env _ _ w).mono fun t ht _ => ?_⟩
    rw [recordMove, if_neg hissue, if_pos hnote, ht]
  · exact ⟨_, (Reviews.movesOnly_applyRemote env _ _ w).mono fun _ _ hk => by simp at hk⟩
  · exact ⟨_, (Epics.movesOnly_applyRemote env _ _ w).mono fun _ _ hk => by simp at hk⟩
  · exact ⟨.epics, OnlyMoved.refl w⟩

/-- Which cursor the handler of a local event may move. -/
theorem onlyMoved_applyLocal (env : Env) (e : LocalEvent) (w : World) :
    ∃ kind, OnlyMoved (e.binding, kind)
      (fun now t => kind = .issues ∨ kind = .notes → localMove e = some kind ∧ t = now) w
      ((applyLocal env e).run w).2 := by
  unfold applyLocal localMove
  cases e.kind with
  | issue =>
    exact ⟨_, (Issues.movesOnly_applyLocal env _ _ _ w).mono fun t ht _ => ⟨rfl, ht⟩⟩
  | note =>
    exact ⟨_, (Notes.movesOnly_applyLocal env _ _ _ w).mono fun t ht _ => ⟨rfl, ht⟩⟩
  | merge_request =>
    exact ⟨_, (MergeRequests.movesOnly_applyLocal env _ _ _ w).mono fun _ _ hk => by simp at hk⟩
  | review =>
    exact ⟨_, (Reviews.movesOnly_applyLocal env _ _ _ w).mono fun _ _ hk => by simp at hk⟩

/-- A step that leaves nothing behind keeps it so. -/
theorem covered_step (h : Covered binding s) {a : Action} (ha : Orderly binding s a) :
    Covered binding (step shown env s a) := by
  cases a with
  | change v =>
    rintro u ⟨hlatest, hfresh⟩
    obtain rfl | hold := List.mem_cons.mp hlatest
    · exact ha
    · exact h u ⟨(List.mem_filter.mp hold).1, hfresh⟩
  | dispatch e fault =>
    obtain ⟨kind, hmoved⟩ := onlyMoved_dispatch { env with fault := fault } e s.world
    exact covered_of_onlyMoved hmoved (fun t hb hkind ht => ha hb _ (ht hkind)) h
  | edit e fault =>
    obtain ⟨kind, hmoved⟩ := onlyMoved_applyLocal { env with fault := fault } e s.world
    refine covered_of_onlyMoved hmoved (fun t hb hkind ht => ?_) h
    obtain ⟨hmove, rfl⟩ := ht hkind
    exact ha hb kind hmove
  | elapse now => exact fun v hv => h v (pending_of_settle hv)
  | work docs => exact fun v hv => h v (pending_of_settle hv)

theorem covered_start (w : World) (records : List Version) :
    Covered binding (start w records) := fun _ _ => .inl ⟨rfl, rfl⟩

section Examples

/-- The issue is mapped to a document that was written from this version. -/
def issueShown (workspaceUuid : String) (w : World) (v : Version) : Bool :=
  (w.idmap.findByGitlab workspaceUuid .issue v.id).any fun row =>
    (w.docs.get? row.hulyRef).any fun doc =>
      doc.attrs.field "modifiedOn" = timeValue (some v.updatedAt)

/-- What the backfill enqueues for an issue. -/
def issueRecord (iid : Int) (updatedAt : Nat) : EnqueuedRecord :=
  (Arrivals.issueItem { openedIssue with iid := iid, updatedAt := updatedAt }).enqueued "b" 7

def earlier : Version := ⟨"issue", "7:3", 10⟩

def later : Version := ⟨"issue", "7:4", 20⟩

/-- Two issues in the order of their times. -/
def inTurn : List Action :=
  [.elapse 100, .change earlier, .change later, .dispatch (issueRecord 3 10) fun _ _ => none,
    .dispatch (issueRecord 4 20) fun _ _ => none]

/-- The platform is away while the first of them is handled. -/
def earlierFails : List Action :=
  [.elapse 100, .change earlier, .change later,
    .dispatch (issueRecord 3 10) fun _ service =>
      if service = .platform then some (.service "timeout") else none,
    .dispatch (issueRecord 4 20) fun _ _ => none]

end Examples

end HulyGitlab.BackfillWindow
