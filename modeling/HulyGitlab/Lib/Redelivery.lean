import HulyGitlab.Lib.Transition

/-!
# Events that are taken in once

A source lists an event again and again. Each time it is put in a queue, unless
its key was seen before; handling an event changes the world and may hand back
further events. A listing leads to the event being applied as soon as the queue
is worked off, exactly when there is an event left to handle.
-/

namespace HulyGitlab

variable {W E K : Type*}

structure Intake (W E K : Type*) where
  world : W
  seen : List K
  queue : List E

namespace Intake

/-- What happens to an intake; `Good` worlds are those that may come about beside it. -/
inductive Action (K : Type*) (Good : W → Prop)
  /-- The source lists the event. -/
  | list
  | dispatch
  | meanwhile (w : Subtype Good)
  /-- The key is seen by way of another event, or of a listing that got no further. -/
  | mark (k : K)
  | forget (k : K)

/-- What the events of an intake are and how they are handled. -/
structure Handling (W E K : Type*) where
  listed : E
  key : E → K
  /-- The world after an event is handled, and the events handed back. -/
  handle : E → W → W × List E

variable [DecidableEq K] {Good : W → Prop} (h : Handling W E K)

def arrive (s : Intake W E K) (e : E) : Intake W E K :=
  if h.key e ∈ s.seen then s
  else { s with seen := h.key e :: s.seen, queue := s.queue ++ [e] }

def dispatch (s : Intake W E K) : Intake W E K :=
  match s.queue with
  | [] => s
  | e :: rest =>
      (h.handle e s.world).2.foldl (arrive h) ⟨(h.handle e s.world).1, s.seen, rest⟩

def step (s : Intake W E K) : Action K Good → Intake W E K
  | .list => s.arrive h h.listed
  | .dispatch => s.dispatch h
  | .meanwhile w => { s with world := w }
  | .mark k => { s with seen := k :: s.seen }
  | .forget k => { s with seen := s.seen.filter (· ≠ k) }

/-- How often a run dispatches. -/
def dispatches : List (Action K Good) → Nat
  | [] => 0
  | .dispatch :: acts => dispatches acts + 1
  | _ :: acts => dispatches acts

/-- Nothing beside the intake takes back what is ready or applied. -/
def Calm (Ready Applied : W → Prop) (s : Intake W E K) : Action K Good → Prop
  | .meanwhile w => (Ready s.world → Ready w) ∧ (Applied s.world → Applied w)
  | _ => True

variable (Good) in
/-- Whatever happens next, the event is applied once the queue is worked off. -/
def Leads (Ready Applied : W → Prop) (s : Intake W E K) : Prop :=
  ∀ acts : List (Action K Good), Transition.Along (step h) (Calm Ready Applied) s acts →
    s.queue.length ≤ dispatches acts → Applied (Transition.exec (step h) s acts).world

/-- A listing of the event in a world that is ready for it leads to its being applied. -/
def ListingLeads (Ready Applied : W → Prop) (s : Intake W E K) : Action K Good → Prop
  | .list => Ready s.world →
      Leads Good h Ready Applied (step h s (.list : Action K Good))
  | _ => True

/-- At a listing in a world that is ready for the event, it is applied, or its key was not seen, or
an event waits in the queue. -/
def ListingOpen (Ready Applied : W → Prop) (s : Intake W E K) : Action K Good → Prop
  | .list => Ready s.world → Applied s.world ∨ h.key h.listed ∉ s.seen ∨ s.queue ≠ []
  | _ => True

/-- Handling an event of the intake applies it in a world that is ready. -/
structure Applies (Mine : E → Prop) (Good Ready Applied : W → Prop) : Prop where
  listed : Mine h.listed
  handed : ∀ e w, Mine e → ∀ e' ∈ (h.handle e w).2, Mine e'
  good : ∀ e w, Mine e → Good w → Good (h.handle e w).1
  ready : ∀ e w, Mine e → Good w → Ready w → Ready (h.handle e w).1
  applied : ∀ e w, Mine e → Good w → Ready w → Applied (h.handle e w).1

/-- The queue holds events of the intake, and the world is as it should be. -/
structure Sound (Mine : E → Prop) (Good : W → Prop) (s : Intake W E K) : Prop where
  mine : ∀ e ∈ s.queue, Mine e
  good : Good s.world

section Arrive

variable {h} {s : Intake W E K}

@[simp] theorem arrive_world (e : E) : (s.arrive h e).world = s.world := by
  unfold arrive
  split_ifs <;> rfl

theorem mem_arrive {e e' : E} (he : e' ∈ (s.arrive h e).queue) : e' ∈ s.queue ∨ e' = e := by
  unfold arrive at he
  split_ifs at he with hseen
  · exact .inl he
  · exact (List.mem_append.mp he).imp id List.mem_singleton.mp

theorem arrive_queue_ne_nil (e : E) (hqueue : s.queue ≠ []) : (s.arrive h e).queue ≠ [] := by
  unfold arrive
  split_ifs
  · exact hqueue
  · exact List.append_ne_nil_of_left_ne_nil hqueue _

/-- An event whose key was not seen waits in the queue. -/
theorem arrive_queue_ne_nil_of_unseen {e : E} (hkey : h.key e ∉ s.seen) :
    (s.arrive h e).queue ≠ [] := by
  unfold arrive
  rw [if_neg hkey]
  exact List.append_ne_nil_of_right_ne_nil _ (List.cons_ne_nil e [])

theorem arrive_of_seen {e : E} (hkey : h.key e ∈ s.seen) : s.arrive h e = s := if_pos hkey

theorem foldl_arrive_world (es : List E) : (es.foldl (arrive h) s).world = s.world := by
  induction es generalizing s with
  | nil => rfl
  | cons e es ih => rw [List.foldl_cons, ih, arrive_world]

theorem mem_foldl_arrive {es : List E} {e : E} (he : e ∈ (es.foldl (arrive h) s).queue) :
    e ∈ s.queue ∨ e ∈ es := by
  induction es generalizing s with
  | nil => exact .inl he
  | cons e₁ es ih =>
    obtain hqueue | hmem := ih he
    · obtain hold | rfl := mem_arrive hqueue
      · exact .inl hold
      · exact .inr List.mem_cons_self
    · exact .inr (List.mem_cons_of_mem e₁ hmem)

end Arrive

section Leads

variable {h} {Mine : E → Prop} {Ready Applied : W → Prop} {s : Intake W E K}

theorem Sound.step (hh : Applies h Mine Good Ready Applied) (hs : Sound Mine Good s)
    (a : Action K Good) : Sound Mine Good (step h s a) := by
  cases a with
  | list =>
    refine ⟨fun e he => ?_, (arrive_world (h := h) h.listed).symm ▸ hs.good⟩
    obtain hold | rfl := mem_arrive he
    · exact hs.mine e hold
    · exact hh.listed
  | dispatch =>
    dsimp only [Intake.step]
    unfold Intake.dispatch
    cases hqueue : s.queue with
    | nil => exact hs
    | cons e rest =>
      have hmine : Mine e := hs.mine e (hqueue ▸ List.mem_cons_self)
      refine ⟨fun e' he' => ?_, ?_⟩
      · obtain hrest | hhanded := mem_foldl_arrive he'
        · exact hs.mine e' (hqueue ▸ List.mem_cons_of_mem e hrest)
        · exact hh.handed e s.world hmine e' hhanded
      · rw [foldl_arrive_world]
        exact hh.good e s.world hmine hs.good
  | meanwhile w => exact ⟨hs.mine, w.2⟩
  | mark k => exact ⟨hs.mine, hs.good⟩
  | forget k => exact ⟨hs.mine, hs.good⟩

/-- The world after an event of the queue is handled. -/
theorem dispatch_world {e : E} {rest : List E} (hqueue : s.queue = e :: rest) :
    (s.dispatch h).world = (h.handle e s.world).1 := by
  unfold Intake.dispatch
  rw [hqueue]
  exact foldl_arrive_world _

theorem ready_step (hh : Applies h Mine Good Ready Applied) (hs : Sound Mine Good s)
    (hready : Ready s.world) {a : Action K Good} (hcalm : Calm Ready Applied s a) :
    Ready (step h s a).world := by
  cases a with
  | list => exact (arrive_world (h := h) h.listed).symm ▸ hready
  | dispatch =>
    dsimp only [Intake.step]
    cases hqueue : s.queue with
    | nil =>
      have hsame : s.dispatch h = s := by rw [Intake.dispatch, hqueue]
      rwa [hsame]
    | cons e rest =>
      rw [dispatch_world hqueue]
      exact hh.ready e s.world (hs.mine e (hqueue ▸ List.mem_cons_self)) hs.good hready
  | meanwhile w => exact hcalm.1 hready
  | mark k => exact hready
  | forget k => exact hready

/-- A world in which an event is left to handle, or that has it applied, has it applied in the end:
the first dispatch applies it, and nothing takes it back. -/
theorem applied_of_dispatched (hh : Applies h Mine Good Ready Applied) (hs : Sound Mine Good s)
    (hready : Ready s.world) {acts : List (Action K Good)}
    (hopen : Applied s.world ∨ s.queue ≠ [] ∧ 0 < dispatches acts)
    (hcalm : Transition.Along (step h) (Calm Ready Applied) s acts) :
    Applied (Transition.exec (step h) s acts).world := by
  induction acts generalizing s with
  | nil => exact hopen.resolve_right fun hdispatch => absurd hdispatch.2 (Nat.lt_irrefl 0)
  | cons a acts ih =>
    refine ih (hs.step hh a) (ready_step hh hs hready hcalm.1) ?_ hcalm.2
    cases a with
    | list =>
      refine hopen.imp (fun happlied => ?_) fun hdispatch =>
        ⟨arrive_queue_ne_nil h.listed hdispatch.1, hdispatch.2⟩
      exact (arrive_world (h := h) h.listed).symm ▸ happlied
    | dispatch =>
      left
      dsimp only [Intake.step]
      cases hqueue : s.queue with
      | nil =>
        have hsame : s.dispatch h = s := by rw [Intake.dispatch, hqueue]
        rw [hsame]
        exact hopen.resolve_right fun hdispatch => hdispatch.1 hqueue
      | cons e rest =>
        rw [dispatch_world hqueue]
        exact hh.applied e s.world (hs.mine e (hqueue ▸ List.mem_cons_self)) hs.good hready
    | meanwhile w => exact hopen.imp hcalm.1.2 fun hdispatch => hdispatch
    | mark k => exact hopen
    | forget k => exact hopen

theorem listingLeads_iff (hh : Applies h Mine Good Ready Applied) (hs : Sound Mine Good s)
    (a : Action K Good) :
    ListingLeads h Ready Applied s a ↔ ListingOpen h Ready Applied s a := by
  cases a with
  | list =>
    refine forall_congr' fun hready => ⟨fun hleads => ?_, fun hopen => ?_⟩
    · -- A listing that changes nothing leads nowhere by itself.
      by_contra hclosed
      simp only [not_or, not_not] at hclosed
      obtain ⟨happlied, hseen, hqueue⟩ := hclosed
      have hsame : step h s (.list : Action K Good) = s := arrive_of_seen hseen
      have hnow := hleads [] trivial (by rw [hsame, hqueue]; exact Nat.zero_le _)
      rw [hsame] at hnow
      exact happlied hnow
    · intro acts hcalm hworked
      refine applied_of_dispatched hh (hs.step hh .list) ((arrive_world (h := h) h.listed).symm ▸ hready) ?_
        hcalm
      have hwaits : ∀ hqueue : (s.arrive h h.listed).queue ≠ [], 0 < dispatches acts :=
        fun hqueue => Nat.lt_of_lt_of_le (List.length_pos_iff.mpr hqueue) hworked
      obtain happlied | hkey | hqueue := hopen
      · exact .inl ((arrive_world (h := h) h.listed).symm ▸ happlied)
      · have hne := arrive_queue_ne_nil_of_unseen hkey
        exact .inr ⟨hne, hwaits hne⟩
      · have hne := arrive_queue_ne_nil (h := h) h.listed hqueue
        exact .inr ⟨hne, hwaits hne⟩
  | dispatch => exact Iff.rfl
  | meanwhile w => exact Iff.rfl
  | mark k => exact Iff.rfl
  | forget k => exact Iff.rfl

/-- Every listing of a run leads to the event being applied if and only if each finds it applied,
unseen or waiting. -/
theorem along_listingLeads_iff (hh : Applies h Mine Good Ready Applied) (hs : Sound Mine Good s)
    (acts : List (Action K Good)) :
    Transition.Along (step h) (ListingLeads h Ready Applied) s acts ↔
      Transition.Along (step h) (ListingOpen h Ready Applied) s acts :=
  Transition.along_congr (fun _ a hsound => hsound.step hh a)
    (fun _ a hsound => listingLeads_iff hh hsound a) hs

/-- A key stays seen until it is forgotten. -/
theorem seen_exec {k : K} (hseen : k ∈ s.seen) {acts : List (Action K Good)}
    (hkept : .forget k ∉ acts) : k ∈ (Transition.exec (step h) s acts).seen := by
  have harrive : ∀ (s : Intake W E K) e, k ∈ s.seen → k ∈ (s.arrive h e).seen := by
    intro s e hs
    unfold arrive
    split_ifs
    · exact hs
    · exact List.mem_cons_of_mem _ hs
  induction acts generalizing s with
  | nil => exact hseen
  | cons a acts ih =>
    refine ih ?_ fun hmem => hkept (List.mem_cons_of_mem a hmem)
    cases a with
    | list => exact harrive s h.listed hseen
    | dispatch =>
      dsimp only [Intake.step]
      unfold Intake.dispatch
      cases s.queue with
      | nil => exact hseen
      | cons e rest =>
        exact List.foldlRecOn (motive := fun s => k ∈ Intake.seen s) _ _ hseen
          fun s hs e _ => harrive s e hs
    | meanwhile w => exact hseen
    | mark j => exact List.mem_cons_of_mem j hseen
    | forget j =>
      have hne : k ≠ j := fun heq => hkept (heq ▸ List.mem_cons_self)
      exact List.mem_filter.mpr ⟨hseen, decide_eq_true hne⟩

/-- After a first listing, and until its key is forgotten, another one does nothing for an event
that was handled in vain. -/
theorem not_listingLeads_of_listed (acts : List (Action K Good))
    (hkept : .forget (h.key h.listed) ∉ acts) {s' : Intake W E K}
    (hs' : Transition.exec (step h) s (.list :: acts) = s') (hready : Ready s'.world)
    (happlied : ¬ Applied s'.world) (hqueue : s'.queue = []) :
    ¬ ListingLeads h Ready Applied s' (.list : Action K Good) := by
  have hlisted : h.key h.listed ∈ (s.arrive h h.listed).seen := by
    unfold arrive
    split_ifs with hseen
    · exact hseen
    · exact List.mem_cons_self
  have hseen : h.key h.listed ∈ s'.seen := by
    rw [← hs', Transition.exec_cons]
    exact seen_exec hlisted hkept
  have hsame : step h s' (.list : Action K Good) = s' := arrive_of_seen hseen
  intro hleads
  have hnow := hleads hready [] trivial (by rw [hsame, hqueue]; exact Nat.zero_le _)
  rw [hsame] at hnow
  exact happlied hnow

end Leads

end Intake

end HulyGitlab
