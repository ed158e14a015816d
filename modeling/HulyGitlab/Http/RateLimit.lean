import Mathlib.Algebra.Order.Floor.Ring
import Mathlib.Data.Rat.Floor
import HulyGitlab.Lib.OrderedMap
import HulyGitlab.Lib.TokenBucket

/-!
# The rate limiter of the HTTP routes

`rateLimit`: one bucket for each key, and an interval that drops the buckets
not used for five minutes. Numbers are rationals; times are in milliseconds.
-/

namespace HulyGitlab.RateLimit

open TokenBucket (Bucket Budget)

variable {R : Type}

structure RateLimitOptions (R : Type) where
  capacity : Option ℚ
  refillPerSecond : Option ℚ
  keyExtractor : Option (R → String)

/-- What the middleware is closed over. -/
structure Limiter (R : Type) where
  capacity : ℚ
  refillPerSecond : ℚ
  keyExtractor : R → String

/-- `ip` reads the address of a request, which express may not know. -/
def rateLimit (ip : R → Option String) (opts : RateLimitOptions R) : Limiter R :=
  let capacity := opts.capacity.getD 10
  { capacity
    refillPerSecond := opts.refillPerSecond.getD (capacity / 60)
    keyExtractor := opts.keyExtractor.getD fun req => (ip req).getD "unknown" }

abbrev Buckets := OrderedMap String (Bucket ℚ)

inductive Outcome where
  | next
  | tooManyRequests (error : String) (retryAfter : ℤ)
  deriving DecidableEq

/-- The body of the interval. -/
def prune (buckets : Buckets) (now : ℚ) : Buckets :=
  let cutoff := now - 5 * 60 * 1000
  buckets.entries.foldl
    (fun m e => if e.2.lastRefill < cutoff then m.delete e.1 else m) buckets

namespace Limiter

variable (lim : Limiter R)

/-- The bucket of a key, refilled. -/
def refilled (buckets : Buckets) (key : String) (now : ℚ) : Bucket ℚ :=
  match buckets.get? key with
  | none => ⟨lim.capacity, now⟩
  | some bucket =>
      let elapsedSec := (now - bucket.lastRefill) / 1000
      ⟨min lim.capacity (bucket.tokens + elapsedSec * lim.refillPerSecond), now⟩

def outcome (bucket : Bucket ℚ) : Outcome :=
  if bucket.tokens < 1 then
    .tooManyRequests "rate limit exceeded" ⌈(1 - bucket.tokens) / lim.refillPerSecond⌉
  else .next

/-- The middleware. The map holds the bucket itself, so that what is taken
from it later is taken in the map. -/
def handle (buckets : Buckets) (req : R) (now : ℚ) : Buckets × Outcome :=
  let key := lim.keyExtractor req
  let bucket := lim.refilled buckets key now
  let buckets := buckets.set key bucket
  match lim.outcome bucket with
  | .tooManyRequests error retryAfter => (buckets, .tooManyRequests error retryAfter)
  | .next => (buckets.set key { bucket with tokens := bucket.tokens - 1 }, .next)

end Limiter

inductive Event (R : Type) where
  | request (req : R) (now : ℚ)
  | prune (now : ℚ)

def Event.now : Event R → ℚ
  | .request _ now => now
  | .prune now => now

/-- The answer to a request, with the key it was counted under. -/
structure Answer where
  key : String
  now : ℚ
  outcome : Outcome
  deriving DecidableEq

namespace Limiter

variable (lim : Limiter R)

def step (buckets : Buckets) : Event R → Buckets
  | .request req now => (lim.handle buckets req now).1
  | .prune now => RateLimit.prune buckets now

def answer (buckets : Buckets) : Event R → Option Answer
  | .request req now => some ⟨lim.keyExtractor req, now, (lim.handle buckets req now).2⟩
  | .prune _ => none

/-- The buckets after a run. -/
def run (buckets : Buckets) (events : List (Event R)) : Buckets := events.foldl lim.step buckets

def answers (buckets : Buckets) : List (Event R) → List Answer
  | [] => []
  | e :: events => (lim.answer buckets e).toList ++ answers (lim.step buckets e) events

/-- The event is a request that is counted under the key. -/
def ofKey (key : String) : Event R → Bool
  | .request req _ => lim.keyExtractor req = key
  | .prune _ => false

/-- The requests of the key let through from `s` to `t`. -/
def admitted (key : String) (s t : ℚ) (events : List (Event R)) : List Answer :=
  (lim.answers .empty events).filter fun a =>
    a.key = key ∧ s ≤ a.now ∧ a.now ≤ t ∧ a.outcome = .next

end Limiter

/-- The clock never goes back between two events. -/
def Timed (events : List (Event R)) : Prop :=
  (events.map Event.now).Pairwise (· ≤ ·)

/-- A capacity of at least one, refilled within five minutes. -/
structure Limiter.Sized (lim : Limiter R) : Prop where
  one_le_capacity : 1 ≤ lim.capacity
  capacity_le : lim.capacity ≤ 300 * lim.refillPerSecond

namespace Limiter

variable {lim : Limiter R} {buckets other : Buckets} {key : String} {now later : ℚ}

/-- The budget of the limiter for each millisecond. -/
def Sized.budget (h : lim.Sized) : Budget ℚ where
  capacity := lim.capacity
  rate := lim.refillPerSecond / 1000
  one_le_capacity := h.one_le_capacity
  rate_nonneg := by linarith [h.one_le_capacity, h.capacity_le]

/-- What a request leaves of the refilled bucket. -/
def taken (bucket : Bucket ℚ) : Bucket ℚ :=
  if bucket.tokens < 1 then bucket else { bucket with tokens := bucket.tokens - 1 }

theorem refilled_eq (h : lim.Sized) (buckets : Buckets) (key : String) (now : ℚ) :
    lim.refilled buckets key now = ⟨TokenBucket.level h.budget (buckets.get? key) now, now⟩ := by
  unfold refilled TokenBucket.level
  cases buckets.get? key with
  | none => rfl
  | some b =>
      have hflow : (now - b.lastRefill) / 1000 * lim.refillPerSecond =
          (now - b.lastRefill) * h.budget.rate := by
        rw [div_mul_eq_mul_div, ← mul_div_assoc']
        rfl
      simp only [hflow]
      rfl

theorem taken_eq (h : lim.Sized) (buckets : Buckets) (key : String) (now : ℚ) :
    taken (lim.refilled buckets key now) = TokenBucket.take h.budget (buckets.get? key) now := by
  rw [refilled_eq h]
  rfl

theorem outcome_next_iff (lim : Limiter R) (bucket : Bucket ℚ) :
    lim.outcome bucket = .next ↔ ¬ bucket.tokens < 1 := by
  unfold outcome
  split <;> simp [*]

theorem handle_outcome (lim : Limiter R) (buckets : Buckets) (req : R) (now : ℚ) :
    (lim.handle buckets req now).2 =
      lim.outcome (lim.refilled buckets (lim.keyExtractor req) now) := by
  simp only [handle]
  split <;> rename_i h <;> exact h.symm

theorem handle_get? (lim : Limiter R) (buckets : Buckets) (req : R) (now : ℚ) (key : String) :
    (lim.handle buckets req now).1.get? key =
      if key = lim.keyExtractor req then some (taken (lim.refilled buckets key now))
      else buckets.get? key := by
  by_cases hkey : key = lim.keyExtractor req
  · subst hkey
    by_cases hone : (lim.refilled buckets (lim.keyExtractor req) now).tokens < 1
    · simp [handle, outcome, taken, hone]
    · simp [handle, outcome, taken, hone]
  · rw [if_neg hkey]
    simp only [handle]
    split <;> simp [OrderedMap.get?_set_of_ne _ hkey]

theorem prune_get? (buckets : Buckets) (now : ℚ) (key : String) :
    (prune buckets now).get? key =
      (buckets.get? key).filter fun b => now - 5 * 60 * 1000 ≤ b.lastRefill := by
  simp only [prune]
  rw [OrderedMap.get?_foldl_delete
    (fun e : String × Bucket ℚ => e.2.lastRefill < now - 5 * 60 * 1000)]
  cases hget : buckets.get? key with
  | none => simp
  | some b =>
      have hiff : (∃ e ∈ buckets.entries, e.2.lastRefill < now - 5 * 60 * 1000 ∧ e.1 = key) ↔
          b.lastRefill < now - 5 * 60 * 1000 := by
        constructor
        · rintro ⟨⟨k, b'⟩, he, hold, rfl⟩
          rw [OrderedMap.get?_of_mem_entries he] at hget
          cases hget
          exact hold
        · intro hold
          exact ⟨(key, b), OrderedMap.mem_entries_of_get? hget, hold, rfl⟩
      by_cases hold : b.lastRefill < now - 5 * 60 * 1000
      · rw [if_pos (hiff.mpr hold), Option.filter_some_neg]
        exact decide_eq_false (not_le.mpr hold)
      · rw [if_neg (hiff.not.mpr hold), Option.filter_some_pos]
        exact decide_eq_true (not_lt.mp hold)

/-- Buckets that can exist at the time `now`. -/
def Sound (buckets : Buckets) (now : ℚ) : Prop :=
  ∀ key, TokenBucket.Sound now (buckets.get? key)

theorem step_sound (h : lim.Sized) (hs : Sound buckets now) (e : Event R) (hnow : now ≤ e.now) :
    Sound (lim.step buckets e) e.now := by
  intro key
  have hkey := (hs key).mono hnow
  cases e with
  | request req u =>
      rw [step, handle_get?]
      split
      · rw [taken_eq h]
        exact TokenBucket.take_sound h.budget hkey
      · exact hkey
  | prune u =>
      rw [step, prune_get?]
      intro b hb
      exact hkey b (Option.mem_filter_iff.mp hb).1

theorem run_sound (h : lim.Sized) {events : List (Event R)} (hs : Sound buckets now)
    (htimed : Timed events) (hlater : ∀ e ∈ events, now ≤ e.now) (hend : now ≤ later)
    (hlast : ∀ e ∈ events, e.now ≤ later) : Sound (lim.run buckets events) later := by
  induction events generalizing buckets now with
  | nil => exact fun key => (hs key).mono hend
  | cons e events ih =>
      obtain ⟨hrest, htimed⟩ := List.pairwise_cons.mp htimed
      obtain ⟨he, hlast⟩ := List.forall_mem_cons.mp hlast
      have hnow := hlater e List.mem_cons_self
      exact ih (step_sound h hs e hnow) htimed
        (fun e' he' => hrest e'.now (List.mem_map_of_mem he')) he hlast

/-- A bucket not used for five minutes has been refilled. -/
theorem full_of_old (h : lim.Sized) (hs : Sound buckets now) {b : Bucket ℚ}
    (hget : buckets.get? key = some b) (hold : b.lastRefill < now - 5 * 60 * 1000)
    (hlater : now ≤ later) : lim.refilled buckets key later = ⟨lim.capacity, later⟩ := by
  have htokens := (hs key b hget).1
  have hrate : 0 ≤ lim.refillPerSecond := by linarith [h.one_le_capacity, h.capacity_le]
  have helapsed : 300 ≤ (later - b.lastRefill) / 1000 := by linarith
  have hflow := mul_le_mul_of_nonneg_right helapsed hrate
  have hfull : lim.capacity ≤
      b.tokens + (later - b.lastRefill) / 1000 * lim.refillPerSecond := by
    linarith [h.capacity_le]
  simp only [refilled, hget, min_eq_left hfull]

/-- From `now` on a request of the key finds the same bucket in both. -/
def Alike (lim : Limiter R) (key : String) (now : ℚ) (buckets other : Buckets) : Prop :=
  ∀ later, now ≤ later → lim.refilled buckets key later = lim.refilled other key later

theorem refilled_congr (h : buckets.get? key = other.get? key) (later : ℚ) :
    lim.refilled buckets key later = lim.refilled other key later := by
  simp only [refilled, h]

theorem Alike.handle (ha : Alike lim key now buckets other) {req : R} {u : ℚ}
    (hkey : lim.keyExtractor req = key) (hu : now ≤ u) :
    (lim.handle buckets req u).2 = (lim.handle other req u).2 ∧
      Alike lim key u (lim.handle buckets req u).1 (lim.handle other req u).1 := by
  subst hkey
  have hsame := ha u hu
  refine ⟨?_, fun later _ => refilled_congr ?_ later⟩
  · rw [handle_outcome, handle_outcome, hsame]
  · rw [handle_get?, handle_get?, if_pos rfl, if_pos rfl, hsame]

/-- An event that is no request of the key leaves its bucket as good as it was. -/
theorem Alike.step_other (h : lim.Sized) (hs : Sound buckets now)
    (ha : Alike lim key now buckets other) {e : Event R} (hkey : lim.ofKey key e = false)
    (hnow : now ≤ e.now) : Alike lim key e.now (lim.step buckets e) other := by
  intro later hlater
  rw [← ha later (hnow.trans hlater)]
  cases e with
  | request req u =>
      have hne : key ≠ lim.keyExtractor req := by
        rintro rfl
        simp [ofKey] at hkey
      refine refilled_congr ?_ later
      rw [step, handle_get?, if_neg hne]
  | prune u =>
      have hsu : Sound buckets u := fun key => (hs key).mono hnow
      by_cases hkept : (prune buckets u).get? key = buckets.get? key
      · exact refilled_congr hkept later
      · rw [prune_get?] at hkept
        cases hget : buckets.get? key with
        | none => simp [hget] at hkept
        | some b =>
            rw [hget] at hkept
            by_cases hold : b.lastRefill < u - 5 * 60 * 1000
            · rw [full_of_old h hsu hget hold hlater]
              have hgone : (prune buckets u).get? key = none := by
                rw [prune_get?, hget, Option.filter_some_neg]
                exact decide_eq_false (not_le.mpr hold)
              simp only [step, refilled, hgone]
            · rw [Option.filter_some_pos] at hkept
              · exact absurd rfl hkept
              · exact decide_eq_true (not_lt.mp hold)

/-- The answers under a key are those of a run of its own requests. -/
theorem answers_ofKey (h : lim.Sized) {events : List (Event R)} (hs : Sound buckets now)
    (ha : Alike lim key now buckets other) (htimed : Timed events)
    (hlater : ∀ e ∈ events, now ≤ e.now) :
    (lim.answers buckets events).filter (fun a => a.key = key) =
      lim.answers other (events.filter (lim.ofKey key)) := by
  induction events generalizing buckets other now with
  | nil => rfl
  | cons e events ih =>
      obtain ⟨hrest, htail⟩ := List.pairwise_cons.mp htimed
      have hrest : ∀ e' ∈ events, e.now ≤ e'.now :=
        fun e' he' => hrest e'.now (List.mem_map_of_mem he')
      have hnow := hlater e List.mem_cons_self
      have hsound := step_sound h hs e hnow
      cases hkey : lim.ofKey key e with
      | false =>
          have hnone : (lim.answer buckets e).toList.filter (fun a => a.key = key) = [] := by
            cases e with
            | request req u => simpa [answer, ofKey] using hkey
            | prune u => rfl
          rw [answers, List.filter_append, hnone, List.nil_append,
            List.filter_cons_of_neg (by simp [hkey])]
          exact ih hsound (ha.step_other h hs hkey hnow) htail hrest
      | true =>
          cases e with
          | prune u => cases hkey
          | request req u =>
              have hreq : lim.keyExtractor req = key := by simpa [ofKey] using hkey
              obtain ⟨houtcome, hnext⟩ := ha.handle hreq hnow
              have hsame : lim.answer buckets (.request req u) =
                  lim.answer other (.request req u) :=
                congrArg (fun o => some (Answer.mk (lim.keyExtractor req) u o)) houtcome
              have hmine : (lim.answer other (.request req u)).toList.filter
                  (fun a => a.key = key) = (lim.answer other (.request req u)).toList := by
                simp [answer, hreq]
              rw [List.filter_cons_of_pos hkey, answers, answers, List.filter_append, hsame, hmine,
                ih hsound hnext htail hrest]
              rfl

/-- For the requests of one key the limiter is a token bucket. -/
theorem answers_grants (h : lim.Sized) {events : List (Event R)}
    (hkey : ∀ e ∈ events, lim.ofKey key e) (buckets : Buckets) :
    ((lim.answers buckets events).filter fun a => a.outcome = .next).map Answer.now =
      TokenBucket.grants h.budget (buckets.get? key) (events.map Event.now) := by
  induction events generalizing buckets with
  | nil => rfl
  | cons e events ih =>
      obtain ⟨he, hrest⟩ := List.forall_mem_cons.mp hkey
      cases e with
      | prune u => cases he
      | request req u =>
          obtain rfl : lim.keyExtractor req = key := by simpa [ofKey] using he
          have hafter : (lim.step buckets (.request req u)).get? (lim.keyExtractor req) =
              some (TokenBucket.take h.budget (buckets.get? (lim.keyExtractor req)) u) := by
            rw [step, handle_get?, if_pos rfl, taken_eq h]
          have hnext := outcome_next_iff lim (lim.refilled buckets (lim.keyExtractor req) u)
          rw [refilled_eq h] at hnext
          simp only [answers, answer, Option.toList_some, List.singleton_append, handle_outcome,
            refilled_eq h, List.map_cons, TokenBucket.grants, Event.now]
          rw [List.filter_cons]
          by_cases hone : TokenBucket.level h.budget (buckets.get? (lim.keyExtractor req)) u < 1
          · rw [if_neg (by simpa [hnext] using hone), if_pos hone, ih hrest, hafter]
          · rw [if_pos (by simpa [hnext] using hone), if_neg hone, List.map_cons, ih hrest, hafter]

end Limiter

/-- The limiter of a route, with its options left out or not. -/
theorem rateLimit_sized (ip : R → Option String) {opts : RateLimitOptions R}
    (hcap : 1 ≤ opts.capacity.getD 10)
    (hrefill : ∀ r ∈ opts.refillPerSecond, opts.capacity.getD 10 ≤ 300 * r) :
    (rateLimit ip opts).Sized := by
  refine ⟨hcap, ?_⟩
  simp only [rateLimit]
  cases h : opts.refillPerSecond with
  | none =>
      rw [Option.getD_none]
      linarith
  | some r => exact hrefill r h

theorem Limiter.Sound.empty (now : ℚ) : Limiter.Sound .empty now := fun _ => TokenBucket.Sound.none now

namespace Limiter

variable {lim : Limiter R} {events : List (Event R)}

/-- The time of the first event of a run, at which the map is still empty. -/
def start (events : List (Event R)) : ℚ := (events.head?.map Event.now).getD 0

theorem start_le (htimed : Timed events) : ∀ e ∈ events, start events ≤ e.now := by
  cases events with
  | nil => exact fun _ he => absurd he List.not_mem_nil
  | cons e events =>
      obtain ⟨hrest, -⟩ := List.pairwise_cons.mp htimed
      exact List.forall_mem_cons.mpr
        ⟨le_refl e.now, fun e' he' => hrest e'.now (List.mem_map_of_mem he')⟩

theorem answers_empty (h : lim.Sized) (key : String) (htimed : Timed events) :
    (lim.answers .empty events).filter (fun a => a.key = key) =
      lim.answers .empty (events.filter (lim.ofKey key)) :=
  answers_ofKey h (Sound.empty (start events)) (fun _ _ => rfl) htimed (start_le htimed)

theorem admitted_length (h : lim.Sized) (key : String) (s t : ℚ) (htimed : Timed events) :
    (lim.admitted key s t events).length =
      ((TokenBucket.grants h.budget none ((events.filter (lim.ofKey key)).map Event.now)).filter
        fun u => s ≤ u ∧ u ≤ t).length := by
  have hkey : ∀ e ∈ events.filter (lim.ofKey key), lim.ofKey key e :=
    fun e he => (List.mem_filter.mp he).2
  have hgrants := answers_grants h hkey .empty
  rw [OrderedMap.get?_empty] at hgrants
  have hadmitted : lim.admitted key s t events =
      (((lim.answers .empty events).filter fun a => a.key = key).filter
        fun a => a.outcome = .next).filter fun a => s ≤ a.now ∧ a.now ≤ t := by
    rw [List.filter_filter, List.filter_filter]
    refine List.filter_congr fun a _ => ?_
    rw [← Bool.decide_and, ← Bool.decide_and]
    exact decide_eq_decide.mpr (by tauto)
  rw [hadmitted, answers_empty h key htimed, ← hgrants, List.filter_map, List.length_map]
  rfl

theorem admitted_le (h : lim.Sized) (key : String) {s t : ℚ} (hst : s ≤ t)
    (htimed : Timed events) :
    ((lim.admitted key s t events).length : ℚ) ≤
      lim.capacity + (t - s) / 1000 * lim.refillPerSecond := by
  have hsub : ((events.filter (lim.ofKey key)).map Event.now).Sublist (events.map Event.now) :=
    List.filter_sublist.map Event.now
  have hlater : ∀ u ∈ (events.filter (lim.ofKey key)).map Event.now, start events ≤ u := by
    intro u hu
    obtain ⟨e, he, rfl⟩ := List.mem_map.mp hu
    exact start_le htimed e (List.mem_of_mem_filter he)
  have hwindow := TokenBucket.grants_window h.budget (TokenBucket.Sound.none (start events)) hlater
    (htimed.sublist hsub) hst
  rw [admitted_length h key s t htimed, div_mul_eq_mul_div, ← mul_div_assoc']
  exact hwindow

end Limiter

/-- Under every key and in every window no more requests are let through than
the capacity and the refill of the window allow; the answers under a key are
those of a run with its requests alone; and a bucket that is pruned would have
been found full at any later time. -/
theorem rateLimit_budget (ip : R → Option String) (opts : RateLimitOptions R)
    (hsized : (rateLimit ip opts).Sized) (events : List (Event R)) (htimed : Timed events)
    (key : String) :
    (∀ s t, s ≤ t → (((rateLimit ip opts).admitted key s t events).length : ℚ) ≤
      (rateLimit ip opts).capacity + (t - s) / 1000 * (rateLimit ip opts).refillPerSecond) ∧
    ((rateLimit ip opts).answers .empty events).filter (fun a => a.key = key) =
      (rateLimit ip opts).answers .empty (events.filter ((rateLimit ip opts).ofKey key)) ∧
    ∀ now, (∀ e ∈ events, e.now ≤ now) →
      ((rateLimit ip opts).run .empty events).get? key ≠ none →
      (prune ((rateLimit ip opts).run .empty events) now).get? key = none →
      ∀ later, now ≤ later →
        (rateLimit ip opts).refilled ((rateLimit ip opts).run .empty events) key later =
          ⟨(rateLimit ip opts).capacity, later⟩ := by
  refine ⟨fun s t hst => Limiter.admitted_le hsized key hst htimed,
    Limiter.answers_empty hsized key htimed, ?_⟩
  intro now hnow hpresent hpruned later hlater
  have hsound : Limiter.Sound ((rateLimit ip opts).run .empty events) now :=
    Limiter.run_sound hsized (Limiter.Sound.empty (min (Limiter.start events) now)) htimed
      (fun e he => (min_le_left _ _).trans (Limiter.start_le htimed e he)) (min_le_right _ _) hnow
  obtain ⟨b, hget⟩ := Option.ne_none_iff_exists'.mp hpresent
  refine Limiter.full_of_old hsized hsound hget ?_ hlater
  rw [Limiter.prune_get?, hget] at hpruned
  by_contra hold
  rw [Option.filter_some_pos] at hpruned
  · cases hpruned
  · exact decide_eq_true (not_lt.mp hold)

/-- Two requests, six minutes of rest with a prune, and a third request, under
the default options. -/
theorem rateLimit_budget_default :
    (((rateLimit id ⟨none, none, none⟩).admitted "1.2.3.4" 0 400000
      [.request (some "1.2.3.4") 0, .request (some "1.2.3.4") 1000, .prune 360000,
        .request (some "1.2.3.4") 360000]).length : ℚ) ≤ 10 + (400000 - 0) / 1000 * (10 / 60) :=
  (rateLimit_budget id ⟨none, none, none⟩
    (rateLimit_sized id (by simp) (fun _ h => nomatch h)) _
    (by norm_num [Timed, Event.now]) "1.2.3.4").1 0 400000 (by norm_num)

end HulyGitlab.RateLimit
