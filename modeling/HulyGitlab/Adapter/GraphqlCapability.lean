import HulyGitlab.Lib.TimedCache
import HulyGitlab.Sync.StatusMap
import HulyGitlab.Util.UrlValidation
import Mathlib.Data.List.GetD

/-!
# Whether an instance speaks GraphQL

`detectGraphQLCapability`, its cache by base URL, and the route that
invalidates it. A call runs until its probe is sent; the answer is a step of
its own, in any order. The probes are numbered as they are sent.
-/

namespace HulyGitlab.GraphqlCapability

open Transition

/-- `CAPABILITY_POSITIVE_TTL_MS` -/
def positiveTtlMs : Nat := 60 * 60 * 1000

/-- `CAPABILITY_NEGATIVE_TTL_MS` -/
def negativeTtlMs : Nat := 5 * 60 * 1000

structure GraphQLCapabilities where
  graphqlAvailable : Bool
  schemaVersion : Option String
  deriving DecidableEq

/-- What a query throws: an object with these fields, where they have the right types, or a
value of another kind. -/
inductive Thrown
  | object (status responseStatus : Option Int) (code message : Option String)
  | other
  deriving DecidableEq

/-- What became of a probe. -/
abbrev Outcome := Except Thrown Unit

/-- `replace(/\/$/, '')` -/
def normalizeBaseUrl (baseUrl : String) : String :=
  if baseUrl.toList.getLast? = some '/' then String.ofList baseUrl.toList.dropLast else baseUrl

def extractStatusCode : Thrown → Option Int
  | .object (some status) _ _ _ => some status
  | .object none responseStatus _ _ => responseStatus
  | .other => none

def networkErrors : List String := ["ECONNREFUSED", "ETIMEDOUT", "ENOTFOUND"]

def isTransientError (err : Thrown) : Bool :=
  match extractStatusCode err, err with
  | some status, _ => 500 ≤ status
  | none, .object _ _ code message =>
      code.getD "" ∈ networkErrors ||
        networkErrors.any fun name => includes (message.getD "") name
  | none, .other => false

def isAuthError (err : Thrown) : Bool :=
  extractStatusCode err = some 401 || extractStatusCode err = some 403

/-- What the call that sent the probe returns. -/
def verdict : Outcome → GraphQLCapabilities
  | .ok _ => ⟨true, none⟩
  | .error _ => ⟨false, none⟩

/-- For how long the verdict is kept; one about the token is not kept. -/
def ttlMs : Outcome → Option Nat
  | .ok _ => some positiveTtlMs
  | .error err =>
      if isAuthError err then none
      else some (if isTransientError err then negativeTtlMs else positiveTtlMs)

/-- The URL functions of the platform and the value of `GITLAB_ALLOWED_HOSTS`. -/
structure Surroundings where
  platform : UrlPlatform
  allowedRaw : Option String

/-- The message of the error that `validateGitLabBaseUrl` throws, if it does. -/
def validationError (w : Surroundings) (raw : String) : Option String :=
  match w.platform.parseUrl raw with
  | none => some ("Invalid gitlabBaseUrl: " ++ raw)
  | some url =>
      let host := url.hostname
      if url.protocol ≠ "http:" ∧ url.protocol ≠ "https:" then
        some ("gitlabBaseUrl must use http or https: " ++ raw)
      else if url.username ≠ "" ∨ url.password ≠ "" then
        some "gitlabBaseUrl must not contain user-info credentials"
      else if w.platform.isIP host ≠ 0 ∧ isPrivateIp w.platform host (w.platform.isIP host) then
        some ("gitlabBaseUrl resolves to a private/link-local IP: " ++ host)
      else if (allowedHosts w.allowedRaw).any fun entry => hostAllowed w.platform entry host then
        none
      else some ("gitlabBaseUrl host not in allowlist: " ++ host)

/-- There is no message exactly when the URL passes. -/
theorem validationError_eq_none_iff (w : Surroundings) (raw : String) :
    validationError w raw = none ↔ validateGitLabBaseUrl w.platform w.allowedRaw raw = true := by
  unfold validationError validateGitLabBaseUrl
  cases w.platform.parseUrl raw with
  | none => simp
  | some url =>
    simp only [Bool.and_eq_true, Bool.or_eq_true, Bool.not_eq_true', decide_eq_true_eq]
    split_ifs with hprotocol huser hprivate hallowed
    · exact iff_of_false (by simp)
        fun h => h.1.1.1.elim hprotocol.1 hprotocol.2
    · exact iff_of_false (by simp)
        fun h => huser.elim (fun hname => hname h.1.1.2.1) fun hpassword => hpassword h.1.1.2.2
    · refine iff_of_false (by simp) fun h => ?_
      rw [Bool.and_eq_false_iff, decide_eq_false_iff_not, hprivate.2] at h
      exact h.1.2.elim (fun hip => hip hprivate.1) Bool.noConfusion
    · rw [not_and_or, not_not, not_not] at hprotocol
      rw [not_or, not_not, not_not] at huser
      refine iff_of_true (by simp) ⟨⟨⟨hprotocol, huser⟩, ?_⟩, hallowed⟩
      rw [Bool.and_eq_false_iff, decide_eq_false_iff_not, ← Bool.not_eq_true]
      exact not_and_or.mp hprivate
    · exact iff_of_false (by simp) fun h => hallowed h.2

/-- A probe that waits for its answer. -/
structure Probe where
  baseUrl : String
  token : String
  deriving DecidableEq

structure Process where
  cache : TimedCache String GraphQLCapabilities
  /-- The probes in the order in which they were sent; nothing once one is answered. -/
  probes : List (Option Probe)

inductive Action
  | wait (ms : Nat)
  | detect (baseUrl token : String)
  | answered (probe : Nat) (outcome : Outcome)
  /-- The request with the `baseUrl` of its body, if that is a text. -/
  | invalidate (baseUrl : Option String)
  deriving DecidableEq

namespace Process

def start (now : Nat) : Process := ⟨.start now, []⟩

/-- The end of `detectGraphQLCapability` for a probe with this outcome. -/
def settle (s : Process) (baseUrl : String) (outcome : Outcome) : Process :=
  match ttlMs outcome with
  | some ttl => { s with cache := s.cache.put (normalizeBaseUrl baseUrl) (verdict outcome) ttl }
  | none => s

def probeAt (s : Process) (i : Nat) : Option Probe := s.probes.getD i none

variable (w : Surroundings)

/-- The error of the constructor, which fails before anything is sent. -/
def rejection (baseUrl : String) : Option Thrown :=
  (validationError w baseUrl).map fun message => .object none none none (some message)

def detect (s : Process) (baseUrl token : String) : Process :=
  match s.cache.serve (normalizeBaseUrl baseUrl), rejection w baseUrl with
  | some _, _ => s
  | none, some err => s.settle baseUrl (.error err)
  | none, none => { s with probes := s.probes ++ [some ⟨baseUrl, token⟩] }

/-- What a call returns before it waits for anything. -/
def reply (s : Process) (baseUrl : String) : Option GraphQLCapabilities :=
  match s.cache.serve (normalizeBaseUrl baseUrl) with
  | some capabilities => some capabilities
  | none => (rejection w baseUrl).map fun err => verdict (.error err)

def answered (s : Process) (i : Nat) (outcome : Outcome) : Process :=
  match s.probeAt i with
  | some probe => ({ s with probes := s.probes.set i none } : Process).settle probe.baseUrl outcome
  | none => s

/-- The URL in the body of the request; an empty one counts as none. -/
def bodyUrl (baseUrl : Option String) : Option String := baseUrl.filter (· ≠ "")

def invalidateGraphQLCapability (s : Process) (baseUrl : Option String) : Process :=
  match baseUrl with
  | none => { s with cache := s.cache.clear }
  | some url => { s with cache := s.cache.delete (normalizeBaseUrl url) }

def step (s : Process) : Action → Process
  | .wait ms => { s with cache := { s.cache with now := s.cache.now + ms } }
  | .detect baseUrl token => s.detect w baseUrl token
  | .answered i outcome => s.answered i outcome
  | .invalidate baseUrl => s.invalidateGraphQLCapability (bodyUrl baseUrl)

/-- What a step learns about an instance: the key of its URL and the outcome. -/
def learned (s : Process) : Action → Option (String × Outcome)
  | .detect baseUrl _ =>
      if (s.cache.serve (normalizeBaseUrl baseUrl)).isSome then none
      else (rejection w baseUrl).map fun err => (normalizeBaseUrl baseUrl, .error err)
  | .answered i outcome => (s.probeAt i).map fun p => (normalizeBaseUrl p.baseUrl, outcome)
  | _ => none

/-- The request invalidates the entry of the key. -/
def Invalidates (key : String) (baseUrl : Option String) : Prop :=
  ∀ url, bodyUrl baseUrl = some url → normalizeBaseUrl url = key

/-- The step brings a new verdict on the key, or invalidates the one there is. -/
def Touches (key : String) (s : Process) (a : Action) : Prop :=
  (∃ outcome, s.learned w a = some (key, outcome) ∧ ttlMs outcome ≠ none) ∨
    ∃ baseUrl, a = .invalidate baseUrl ∧ Invalidates key baseUrl

/-- What an outcome does to the cache. -/
def kept (key : String) (outcome : Outcome) : TimedCache.Change String GraphQLCapabilities :=
  match ttlMs outcome with
  | some ttl => .put key (verdict outcome) ttl
  | none => .none

/-- What a step does to the cache that has learned something, or nothing. -/
def changeBy : Option (String × Outcome) → TimedCache.Change String GraphQLCapabilities
  | some (key, outcome) => kept key outcome
  | none => .none

/-- What a step does to the cache. -/
def change (s : Process) : Action → TimedCache.Change String GraphQLCapabilities
  | .wait ms => .wait ms
  | .invalidate baseUrl =>
      match bodyUrl baseUrl with
      | none => .clear
      | some url => .delete (normalizeBaseUrl url)
  | .detect baseUrl token => changeBy (s.learned w (.detect baseUrl token))
  | .answered i outcome => changeBy (s.learned w (.answered i outcome))

/-- What the step `a` of the run learned about the key is still served at its end. -/
def Served (s : Process) (acts : List Action) (key : String) (a : Action) (outcome : Outcome) :
    Prop :=
  ∃ ttl before after, acts = before ++ a :: after ∧
    (exec (step w) s before).learned w a = some (key, outcome) ∧ ttlMs outcome = some ttl ∧
    Along (step w) (fun s a => ¬ Touches w key s a) (exec (step w) s (before ++ [a])) after ∧
    (exec (step w) s acts).cache.now - (exec (step w) s before).cache.now < ttl

variable {w}

@[simp] theorem settle_probes (s : Process) (baseUrl : String) (outcome : Outcome) :
    (s.settle baseUrl outcome).probes = s.probes := by
  unfold settle
  cases ttlMs outcome with
  | none => rfl
  | some ttl => rfl

theorem settle_cache (s : Process) (baseUrl : String) (outcome : Outcome) :
    (s.settle baseUrl outcome).cache = s.cache.apply (kept (normalizeBaseUrl baseUrl) outcome) := by
  unfold settle kept
  cases ttlMs outcome with
  | none => rfl
  | some ttl => rfl

/-- The cache of a process undergoes the changes of its steps. -/
theorem step_cache (s : Process) (a : Action) :
    (s.step w a).cache = s.cache.apply (s.change w a) := by
  cases a with
  | wait ms => rfl
  | detect baseUrl token =>
    simp only [step, detect, change, learned]
    cases s.cache.serve (normalizeBaseUrl baseUrl) with
    | some capabilities => rfl
    | none =>
      cases rejection w baseUrl with
      | some err => exact settle_cache s baseUrl _
      | none => rfl
  | answered i outcome =>
    simp only [step, answered, change, learned]
    cases s.probeAt i with
    | some probe => exact settle_cache _ probe.baseUrl outcome
    | none => rfl
  | invalidate baseUrl =>
    simp only [step, invalidateGraphQLCapability, change]
    cases bodyUrl baseUrl with
    | none => rfl
    | some url => rfl

theorem kept_eq_put_iff {key key' : String} {outcome : Outcome} {v : GraphQLCapabilities}
    {ttl : Nat} :
    kept key outcome = .put key' v ttl ↔
      key = key' ∧ verdict outcome = v ∧ ttlMs outcome = some ttl := by
  unfold kept
  cases ttlMs outcome with
  | none => simp
  | some ttl' => simp

theorem kept_touches_iff {key key' : String} {outcome : Outcome} :
    (kept key outcome).Touches key' ↔ key = key' ∧ ttlMs outcome ≠ none := by
  unfold kept
  cases ttlMs outcome with
  | none => simp [TimedCache.Change.Touches]
  | some ttl => simp [TimedCache.Change.Touches]

theorem changeBy_eq_put_iff {l : Option (String × Outcome)} {key : String}
    {v : GraphQLCapabilities} {ttl : Nat} :
    changeBy l = .put key v ttl ↔
      ∃ outcome, l = some (key, outcome) ∧ verdict outcome = v ∧ ttlMs outcome = some ttl := by
  obtain - | ⟨key', outcome⟩ := l
  · simp [changeBy]
  · rw [changeBy, kept_eq_put_iff]
    constructor
    · rintro ⟨rfl, hv, httl⟩
      exact ⟨outcome, rfl, hv, httl⟩
    · rintro ⟨_, ⟨⟩, hv, httl⟩
      exact ⟨rfl, hv, httl⟩

theorem changeBy_touches_iff {l : Option (String × Outcome)} {key : String} :
    (changeBy l).Touches key ↔ ∃ outcome, l = some (key, outcome) ∧ ttlMs outcome ≠ none := by
  obtain - | ⟨key', outcome⟩ := l
  · simp [changeBy, TimedCache.Change.Touches]
  · rw [changeBy, kept_touches_iff]
    constructor
    · rintro ⟨rfl, httl⟩
      exact ⟨outcome, rfl, httl⟩
    · rintro ⟨_, ⟨⟩, httl⟩
      exact ⟨rfl, httl⟩

/-- A step puts in what it learned, if that is to be kept. -/
theorem change_eq_put_iff {s : Process} {a : Action} {key : String} {v : GraphQLCapabilities}
    {ttl : Nat} :
    s.change w a = .put key v ttl ↔
      ∃ outcome, s.learned w a = some (key, outcome) ∧ verdict outcome = v ∧
        ttlMs outcome = some ttl := by
  cases a with
  | wait ms => simp [change, learned]
  | detect baseUrl token => exact changeBy_eq_put_iff
  | answered i outcome => exact changeBy_eq_put_iff
  | invalidate baseUrl =>
    simp only [change, learned]
    cases bodyUrl baseUrl with
    | none => simp
    | some url => simp

theorem change_touches_iff {s : Process} {a : Action} {key : String} :
    (s.change w a).Touches key ↔ Touches w key s a := by
  unfold Touches
  cases a with
  | wait ms => simp [change, learned, TimedCache.Change.Touches]
  | detect baseUrl token => simpa [change] using changeBy_touches_iff
  | answered i outcome => simpa [change] using changeBy_touches_iff
  | invalidate baseUrl =>
    have hinvalidates : ((∃ outcome, s.learned w (.invalidate baseUrl) = some (key, outcome) ∧
        ttlMs outcome ≠ none) ∨ ∃ url, Action.invalidate baseUrl = .invalidate url ∧
          Invalidates key url) ↔ Invalidates key baseUrl := by
      simp [learned]
    rw [hinvalidates]
    simp only [change, Invalidates]
    cases bodyUrl baseUrl with
    | none => simp [TimedCache.Change.Touches]
    | some url => simp [TimedCache.Change.Touches]

/-- What a cache serves that had no entry for the key when the run began. -/
theorem serve_exec_iff {s : Process} {key : String} (hs : s.cache.entries.get? key = none)
    (acts : List Action) (capabilities : GraphQLCapabilities) :
    (exec (step w) s acts).cache.serve key = some capabilities ↔
      ∃ a outcome, Served w s acts key a outcome ∧ verdict outcome = capabilities := by
  have htouches : (fun s a => ¬ (change w s a).Touches key) = fun s a => ¬ Touches w key s a := by
    ext s a
    rw [change_touches_iff]
  rw [TimedCache.serve_exec_iff (fun s a => step_cache s a) hs]
  constructor
  · rintro ⟨ttl, before, a, after, ⟨hsplit, hput, huntouched⟩, hyoung⟩
    obtain ⟨outcome, hlearned, hverdict, httl⟩ := change_eq_put_iff.mp hput
    rw [htouches] at huntouched
    exact ⟨a, outcome, ⟨ttl, before, after, hsplit, hlearned, httl, huntouched, hyoung⟩, hverdict⟩
  · rintro ⟨a, outcome, ⟨ttl, before, after, hsplit, hlearned, httl, huntouched, hyoung⟩, hverdict⟩
    refine ⟨ttl, before, a, after, ⟨hsplit, ?_, ?_⟩, hyoung⟩
    · exact change_eq_put_iff.mpr ⟨outcome, hlearned, hverdict, httl⟩
    · rw [htouches]
      exact huntouched

/-- After any run, a call is answered at once by the youngest thing learned about its base URL,
as long as that lasts; else by the check of the URL, if the URL does not pass. -/
theorem reply_iff (now : Nat) (acts : List Action) (baseUrl : String)
    (capabilities : GraphQLCapabilities) :
    (exec (step w) (start now) acts).reply w baseUrl = some capabilities ↔
      (∃ a outcome, Served w (start now) acts (normalizeBaseUrl baseUrl) a outcome ∧
          verdict outcome = capabilities) ∨
        (∀ a outcome, ¬ Served w (start now) acts (normalizeBaseUrl baseUrl) a outcome) ∧
          validateGitLabBaseUrl w.platform w.allowedRaw baseUrl = false ∧
          capabilities = ⟨false, none⟩ := by
  have hserve := @serve_exec_iff w (start now) (normalizeBaseUrl baseUrl) rfl acts
  unfold reply
  cases hcache : (exec (step w) (start now) acts).cache.serve (normalizeBaseUrl baseUrl) with
  | some found =>
    obtain ⟨a, outcome, hserved, hverdict⟩ := (hserve found).mp hcache
    rw [← hserve, hcache, iff_self_or]
    rintro ⟨hnone, -⟩
    exact absurd hserved (hnone a outcome)
  | none =>
    have hnone : ∀ a outcome,
        ¬ Served w (start now) acts (normalizeBaseUrl baseUrl) a outcome := by
      intro a outcome hserved
      rw [(hserve _).mpr ⟨a, outcome, hserved, rfl⟩] at hcache
      cases hcache
    rw [← hserve, hcache, ← Bool.not_eq_true, ← validationError_eq_none_iff]
    unfold rejection
    cases validationError w baseUrl with
    | none => simp
    | some message =>
      simp only [Option.map_some, verdict, Option.some.injEq, reduceCtorEq, false_or, hnone,
        not_false_eq_true, implies_true, true_and]
      exact eq_comm

theorem get?_invalidate {s : Process} {key : String} {baseUrl : Option String}
    (h : Invalidates key baseUrl) :
    (s.step w (.invalidate baseUrl)).cache.entries.get? key = none := by
  have htouches : (s.change w (.invalidate baseUrl)).Touches key :=
    change_touches_iff.mpr (.inr ⟨baseUrl, rfl, h⟩)
  rw [step_cache, Option.eq_none_iff_forall_ne_some]
  intro e hget
  obtain ⟨hput, -⟩ := (TimedCache.get?_apply_of_touches htouches).mp hget
  obtain ⟨outcome, hlearned, -⟩ := change_eq_put_iff.mp hput
  cases hlearned

@[simp] theorem probes_invalidate (s : Process) (baseUrl : Option String) :
    (s.step w (.invalidate baseUrl)).probes = s.probes := by
  simp only [step, invalidateGraphQLCapability]
  cases bodyUrl baseUrl with
  | none => rfl
  | some url => rfl

@[simp] theorem probeAt_invalidate (s : Process) (baseUrl : Option String) (i : Nat) :
    (s.step w (.invalidate baseUrl)).probeAt i = s.probeAt i := by
  rw [probeAt, probes_invalidate, probeAt]

theorem lt_of_probeAt {s : Process} {i : Nat} {p : Probe} (h : s.probeAt i = some p) :
    i < s.probes.length := by
  by_contra hlength
  rw [probeAt, List.getD_eq_default _ _ (Nat.le_of_not_lt hlength)] at h
  cases h

/-- A step sends no probe under an old number, and brings none back. -/
theorem probes_step {s : Process} {i : Nat} (hi : i < s.probes.length) (a : Action) :
    i < (s.step w a).probes.length ∧
      ∀ p, (s.step w a).probeAt i = some p → s.probeAt i = some p := by
  cases a with
  | wait ms => exact ⟨hi, fun p h => h⟩
  | detect baseUrl token =>
    simp only [step, detect]
    cases s.cache.serve (normalizeBaseUrl baseUrl) with
    | some capabilities => exact ⟨hi, fun p h => h⟩
    | none =>
      cases rejection w baseUrl with
      | some err =>
        simp only [probeAt, settle_probes]
        exact ⟨hi, fun p h => h⟩
      | none =>
        simp only [probeAt, List.length_append]
        refine ⟨Nat.lt_add_right _ hi, fun p h => ?_⟩
        rwa [List.getD_append _ _ _ _ hi] at h
  | answered j outcome =>
    simp only [step, answered]
    cases s.probeAt j with
    | none => exact ⟨hi, fun p h => h⟩
    | some probe =>
      simp only [probeAt, settle_probes, List.length_set]
      refine ⟨hi, fun p h => ?_⟩
      by_cases hij : j = i
      · subst hij
        simp [hi] at h
      · simpa [List.getD_eq_getElem?_getD, List.getElem?_set_ne hij] using h
  | invalidate baseUrl =>
    rw [probes_invalidate]
    exact ⟨hi, fun p h => by rwa [probeAt_invalidate] at h⟩

theorem probeAt_of_exec {s : Process} {i : Nat} (hi : i < s.probes.length) {acts : List Action}
    {p : Probe} (h : (exec (step w) s acts).probeAt i = some p) : s.probeAt i = some p := by
  induction acts generalizing s with
  | nil => exact h
  | cons a acts ih =>
    obtain ⟨hlength, hprobe⟩ := probes_step (w := w) hi a
    exact hprobe p (ih hlength h)

/-- The answer to a probe that is under way may be the next thing that is served. -/
theorem served_answered {s : Process} {i : Nat} {p : Probe} (h : s.probeAt i = some p) :
    Served w s [.answered i (.ok ())] (normalizeBaseUrl p.baseUrl) (.answered i (.ok ()))
      (.ok ()) := by
  have hlearned : s.learned w (.answered i (.ok ())) =
      some (normalizeBaseUrl p.baseUrl, .ok ()) := by
    simp only [learned, h, Option.map_some]
  have hput := change_eq_put_iff.mpr ⟨.ok (), hlearned, rfl, rfl⟩
  refine ⟨positiveTtlMs, [], [], rfl, hlearned, rfl, trivial, ?_⟩
  rw [exec_cons, exec_nil, step_cache, hput, exec_nil]
  simp [TimedCache.apply, TimedCache.put, positiveTtlMs]

/-- An answer that is served is to a later probe, or to one of the key that was under way. -/
theorem probeAt_of_served {s : Process} {acts : List Action} {key : String} {i : Nat}
    {outcome : Outcome} (h : Served w s acts key (.answered i outcome) outcome)
    (hi : i < s.probes.length) :
    ∃ p, s.probeAt i = some p ∧ normalizeBaseUrl p.baseUrl = key := by
  obtain ⟨ttl, before, after, -, hlearned, -⟩ := h
  obtain ⟨p, hp, heq⟩ := Option.map_eq_some_iff.mp hlearned
  exact ⟨p, probeAt_of_exec hi hp, congrArg Prod.fst heq⟩

/-- Right after an invalidation nothing is served under the key but what is learned from then on;
all of that is from probes sent from then on exactly when no probe of the key is under way. -/
theorem fresh_after_invalidate {s : Process} {key : String} {baseUrl : Option String}
    (h : Invalidates key baseUrl) :
    (∀ acts capabilities,
        (exec (step w) (s.step w (.invalidate baseUrl)) acts).cache.serve key =
            some capabilities ↔
          ∃ a outcome, Served w (s.step w (.invalidate baseUrl)) acts key a outcome ∧
            verdict outcome = capabilities) ∧
      ((∀ acts i outcome,
          Served w (s.step w (.invalidate baseUrl)) acts key (.answered i outcome) outcome →
            s.probes.length ≤ i) ↔
        ∀ i p, s.probeAt i = some p → normalizeBaseUrl p.baseUrl ≠ key) := by
  refine ⟨fun acts capabilities => serve_exec_iff (get?_invalidate h) acts capabilities, ?_⟩
  constructor
  · rintro hlate i p hp rfl
    have hserved : Served w (s.step w (.invalidate baseUrl)) [.answered i (.ok ())]
        (normalizeBaseUrl p.baseUrl) (.answered i (.ok ())) (.ok ()) :=
      served_answered (by rw [probeAt_invalidate, hp])
    exact absurd (hlate _ i _ hserved) (Nat.not_le_of_lt (lt_of_probeAt hp))
  · intro hnone acts i outcome hserved
    by_contra hlength
    have hi : i < (s.step w (.invalidate baseUrl)).probes.length := by
      rw [probes_invalidate]
      exact Nat.lt_of_not_le hlength
    obtain ⟨p, hp, hkey⟩ := probeAt_of_served hserved hi
    rw [probeAt_invalidate] at hp
    exact hnone i p hp hkey

/-- A platform that reads two spellings of one base URL. -/
def sampleSurroundings : Surroundings where
  platform := {
    parseUrl := fun raw =>
      if raw ∈ ["https://gitlab.com", "https://gitlab.com/"] then
        some ⟨"https:", "", "", "gitlab.com"⟩
      else none
    isIP := fun _ => 0
    toLowerCase := id }
  allowedRaw := none

/-- A probe is under way. -/
def sampleProcess : Process :=
  (start 0).step sampleSurroundings (.detect "https://gitlab.com" "token")

/-- The verdict of a probe that was sent before the invalidation is served after it. -/
theorem fresh_after_invalidate_stale :
    ¬ ∀ acts i outcome,
      Served sampleSurroundings
        (sampleProcess.step sampleSurroundings (.invalidate (some "https://gitlab.com/"))) acts
        "https://gitlab.com" (.answered i outcome) outcome → sampleProcess.probes.length ≤ i := by
  have hinvalidates : Invalidates "https://gitlab.com" (some "https://gitlab.com/") := by
    rintro url ⟨⟩
    decide
  intro hlate
  exact (fresh_after_invalidate hinvalidates).2.mp hlate 0 ⟨"https://gitlab.com", "token"⟩ rfl rfl

end Process

end HulyGitlab.GraphqlCapability
