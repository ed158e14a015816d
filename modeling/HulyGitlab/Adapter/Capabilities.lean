import HulyGitlab.Lib.Transition
import HulyGitlab.Sync.BindingLifecycle

/-!
# Detecting the edition of an instance

The result of a detection is kept in two places: in a cache of the module, by
base URL and token, and in the client object that asked. A detection that
finds the cache filled leaves its client as it was.
-/

namespace HulyGitlab.Detection

open Transition

/-- `TTL_MS` -/
def ttlMs : Nat := 60 * 60 * 1000

inductive Edition
  | ce
  | ee
  deriving DecidableEq

structure FeatureFlags where
  graphqlIssueNotes : Bool
  graphqlIssueBatchedNotes : Bool
  deriving DecidableEq

structure Capabilities where
  gitlabVersion : String
  edition : Edition
  graphqlAvailable : Bool
  featureFlags : FeatureFlags
  deriving DecidableEq

structure CacheEntry where
  capabilities : Capabilities
  expiresAt : Nat
  deriving DecidableEq

/-- `/ee/i` matches the text. -/
def matchesEe : List Char → Bool
  | c :: d :: rest => (c.toLower = 'e' ∧ d.toLower = 'e') || matchesEe (d :: rest)
  | _ => false

def parseEdition (revision : String) : Edition :=
  if matchesEe revision.toList then .ee else .ce

/-- What `GET /api/v4/version` answers. -/
structure VersionData where
  version : String
  revision : String
  deriving DecidableEq

/-- A client object, and whether a detection for it has resolved. -/
structure GitLabClient where
  baseUrl : String
  token : String
  capabilities : Option Capabilities
  resolved : Bool
  deriving DecidableEq

/-- `ensureEE` -/
def GitLabClient.ensureEE (c : GitLabClient) : Bool :=
  c.capabilities.any fun capabilities => capabilities.edition = .ee

/-- A detection that waits for the version, or for the ping, which a client without GraphQL
refuses to send. -/
inductive Detecting
  | version (client : Nat) (key : String)
  | ping (client : Nat) (key : String) (data : VersionData) (refused : Bool)
  deriving DecidableEq

structure Process where
  now : Nat
  cache : OrderedMap String CacheEntry
  clients : List GitLabClient
  detections : List (Option Detecting)

inductive Action
  | tick (ms : Nat)
  /-- `new GitLabClient(…)` -/
  | construct (baseUrl token : String)
  /-- `detectCapabilities(client)` -/
  | detect (client : Nat)
  /-- The request for the version succeeds or fails. -/
  | version (detection : Nat) (succeeds : Bool)
  /-- The ping succeeds or fails. -/
  | ping (detection : Nat) (succeeds : Bool)
  /-- The part of `loadInternal` that makes the client of a binding. -/
  | load (baseUrl token : String)
  /-- The client of a load is used. -/
  | use (client : Nat)
  /-- A client of `gitlabClientFactory` registers a webhook. -/
  | registerWebhook (baseUrl token : String)
  deriving DecidableEq

/-- The hash function, and the instances there are. -/
structure Surroundings where
  sha256 : String → String
  instances : String → VersionData

namespace Process

def start (now : Nat) : Process := ⟨now, .empty, [], []⟩

variable (w : Surroundings)

def cacheKey (baseUrl token : String) : String := w.sha256 (baseUrl ++ ":" ++ token)

def newClient (baseUrl token : String) : GitLabClient := ⟨baseUrl, token, none, false⟩

/-- The entry of a key while it is not too old. -/
def cached (s : Process) (key : String) : Option Capabilities :=
  match s.cache.get? key with
  | some entry => if s.now < entry.expiresAt then some entry.capabilities else none
  | none => none

def construct (s : Process) (baseUrl token : String) : Process :=
  { s with clients := s.clients ++ [newClient baseUrl token] }

/-- The call up to its first await, or up to its end when the cache is filled. -/
def detect (s : Process) (i : Nat) : Process :=
  match s.clients[i]? with
  | none => s
  | some client =>
      let key := cacheKey w client.baseUrl client.token
      match s.cached key with
      | some _ => { s with clients := s.clients.set i { client with resolved := true } }
      | none => { s with detections := s.detections ++ [some (.version i key)] }

def detected (data : VersionData) (graphqlAvailable : Bool) : Capabilities :=
  ⟨data.version, parseEdition data.revision, graphqlAvailable, graphqlAvailable, graphqlAvailable⟩

def detectionAt (s : Process) (n : Nat) : Option Detecting := s.detections.getD n none

/-- The version has come: the ping is sent, unless the client knows that there is no GraphQL. -/
def version (s : Process) (n : Nat) (succeeds : Bool) : Process :=
  match s.detectionAt n with
  | some (.version i key) =>
      match s.clients[i]?, succeeds with
      | some client, true =>
          let refused := client.capabilities.any fun known => !known.graphqlAvailable
          { s with
            detections :=
              s.detections.set n (some (.ping i key (w.instances client.baseUrl) refused)) }
      | _, _ => { s with detections := s.detections.set n none }
  | _ => s

/-- The ping is answered: the client and the cache get the capabilities. -/
def ping (s : Process) (n : Nat) (succeeds : Bool) : Process :=
  match s.detectionAt n with
  | some (.ping i key data refused) =>
      let capabilities := detected data (succeeds && !refused)
      match s.clients[i]? with
      | some client =>
          { s with
            clients := s.clients.set i
              { client with capabilities := some capabilities, resolved := true }
            cache := s.cache.set key ⟨capabilities, s.now + ttlMs⟩
            detections := s.detections.set n none }
      | none => s
  | _ => s

def step (s : Process) : Action → Process
  | .tick ms => { s with now := s.now + ms }
  | .construct baseUrl token => s.construct baseUrl token
  | .detect i => s.detect w i
  | .version n succeeds => s.version w n succeeds
  | .ping n succeeds => s.ping n succeeds
  | .load baseUrl token => (s.construct baseUrl token).detect w s.clients.length
  | .use _ => s
  | .registerWebhook baseUrl token => s.construct baseUrl token

/-- The call that resolves in a step: its client, and the value it returns. -/
def resolves (s : Process) : Action → Option (Nat × Capabilities)
  | .detect i =>
      s.clients[i]?.bind fun client =>
        (s.cached (cacheKey w client.baseUrl client.token)).map fun known => (i, known)
  | .load baseUrl token =>
      (s.cached (cacheKey w baseUrl token)).map fun known => (s.clients.length, known)
  | .ping n succeeds =>
      match s.detectionAt n with
      | some (.ping i _ data refused) => some (i, detected data (succeeds && !refused))
      | _ => none
  | _ => none

def isEE (baseUrl : String) : Prop := parseEdition (w.instances baseUrl).revision = .ee

/-- The flag for epics in the hook that a client registers. -/
def epicEvents (client : GitLabClient) : Bool := client.ensureEE

/-- A call that resolves leaves its client with what it returns; a client with a resolved
detection that is used, or one that registers a webhook, takes the branch of its instance. -/
def Informed (s : Process) (a : Action) : Prop :=
  (∀ i known, s.resolves w a = some (i, known) →
    ((s.step w a).clients[i]?).bind GitLabClient.capabilities = some known) ∧
  match a with
  | .use i => ∀ client ∈ s.clients[i]?, client.resolved = true → isEE w client.baseUrl →
      client.ensureEE = true
  | .registerWebhook baseUrl token => isEE w baseUrl →
      epicEvents (newClient baseUrl token) = true
  | _ => True

/-- A detection finds no entry of the last hour, or its client has what is in it; and nothing
registers a webhook at an enterprise instance. -/
def Unaided (s : Process) : Action → Prop
  | .detect i => ∀ client ∈ s.clients[i]?,
      ∀ known ∈ s.cached (cacheKey w client.baseUrl client.token),
        client.capabilities = some known
  | .load baseUrl token => s.cached (cacheKey w baseUrl token) = none
  | .registerWebhook baseUrl _ => ¬ isEE w baseUrl
  | _ => True

variable {w : Surroundings} {s : Process}

/-- Clients know the edition of their instance, if any; those with a resolved detection know it;
and a ping is for a client that exists, with the version of its instance. -/
structure Inv (w : Surroundings) (s : Process) : Prop where
  edition : ∀ client ∈ s.clients, ∀ known, client.capabilities = some known →
    known.edition = parseEdition (w.instances client.baseUrl).revision
  resolved : ∀ client ∈ s.clients, client.resolved = true → client.capabilities ≠ none
  pinging : ∀ i key data refused, some (.ping i key data refused) ∈ s.detections →
    ∃ client, s.clients[i]? = some client ∧ data = w.instances client.baseUrl

theorem inv_start (now : Nat) : (start now).Inv w := by
  refine ⟨?_, ?_, ?_⟩ <;> simp [start]

theorem detectionAt_mem {n : Nat} {d : Detecting} (h : s.detectionAt n = some d) :
    some d ∈ s.detections := by
  unfold detectionAt at h
  rw [List.getD_eq_getElem?_getD] at h
  cases hn : s.detections[n]? with
  | none =>
    rw [hn] at h
    cases h
  | some d' =>
    rw [hn] at h
    obtain rfl : d' = some d := h
    exact List.mem_of_getElem? hn

/-- Changing a client object keeps the invariant when it stays at its instance and knows it. -/
theorem Inv.setClient (hs : s.Inv w) {i : Nat} {client : GitLabClient}
    (hi : s.clients[i]? = some client) (client' : GitLabClient) (hurl : client'.baseUrl = client.baseUrl)
    {known : Capabilities} (hknown : client'.capabilities = some known)
    (hedition : known.edition = parseEdition (w.instances client.baseUrl).revision) :
    Inv w { s with clients := s.clients.set i client' } where
  edition c hc k hk := by
    obtain hold | rfl := List.mem_or_eq_of_mem_set hc
    · exact hs.edition c hold k hk
    · rw [hknown] at hk
      cases hk
      rw [hurl]
      exact hedition
  resolved c hc hresolved := by
    obtain hold | rfl := List.mem_or_eq_of_mem_set hc
    · exact hs.resolved c hold hresolved
    · rw [hknown]
      exact Option.some_ne_none known
  pinging j key data refused hmem := by
    obtain ⟨c, hc, hdata⟩ := hs.pinging j key data refused hmem
    by_cases hj : i = j
    · subst hj
      obtain rfl := Option.some.inj (hi.symm.trans hc)
      have hlt := (List.getElem?_eq_some_iff.mp hi).1
      exact ⟨client', List.getElem?_set_self hlt, by rw [hurl]; exact hdata⟩
    · exact ⟨c, (List.getElem?_set_ne hj).trans hc, hdata⟩

/-- What else a step does: pings go on only for what was pinged before. -/
theorem Inv.of_clients (hs : s.Inv w) {s' : Process} (hclients : s'.clients = s.clients)
    (hpings : ∀ i key data refused, some (.ping i key data refused) ∈ s'.detections →
      ∃ client, s.clients[i]? = some client ∧ data = w.instances client.baseUrl) : s'.Inv w where
  edition := by
    rw [hclients]
    exact hs.edition
  resolved := by
    rw [hclients]
    exact hs.resolved
  pinging := by
    rw [hclients]
    exact hpings

theorem Inv.construct (hs : s.Inv w) (baseUrl token : String) :
    (s.construct baseUrl token).Inv w where
  edition c hc k hk := by
    obtain hold | hnew := List.mem_append.mp hc
    · exact hs.edition c hold k hk
    · rw [List.mem_singleton.mp hnew] at hk
      cases hk
  resolved c hc hresolved := by
    obtain hold | hnew := List.mem_append.mp hc
    · exact hs.resolved c hold hresolved
    · rw [List.mem_singleton.mp hnew] at hresolved
      cases hresolved
  pinging i key data refused hmem := by
    obtain ⟨c, hc, hdata⟩ := hs.pinging i key data refused hmem
    have hlt := (List.getElem?_eq_some_iff.mp hc).1
    exact ⟨c, (List.getElem?_append_left hlt).trans hc, hdata⟩

theorem Inv.detect (hs : s.Inv w) {i : Nat}
    (h : ∀ client ∈ s.clients[i]?, ∀ known ∈ s.cached (cacheKey w client.baseUrl client.token),
      client.capabilities = some known) : (s.detect w i).Inv w := by
  unfold Process.detect
  cases hi : s.clients[i]? with
  | none => exact hs
  | some client =>
    dsimp only
    cases hcached : s.cached (cacheKey w client.baseUrl client.token) with
    | some known =>
      have hknown := h client hi known hcached
      exact hs.setClient hi _ rfl hknown (hs.edition client (List.mem_of_getElem? hi) known hknown)
    | none =>
      refine hs.of_clients rfl fun j key data refused hmem => ?_
      obtain hold | hnew := List.mem_append.mp hmem
      · exact hs.pinging j key data refused hold
      · cases List.mem_singleton.mp hnew

theorem Inv.version (hs : s.Inv w) (n : Nat) (succeeds : Bool) :
    (s.version w n succeeds).Inv w := by
  unfold Process.version
  cases hn : s.detectionAt n with
  | none => exact hs
  | some d =>
    cases d with
    | ping i key data refused => exact hs
    | version i key =>
      have hdropped : Inv w { s with detections := s.detections.set n none } := by
        refine hs.of_clients rfl fun j key data refused hmem => ?_
        obtain hold | hnew := List.mem_or_eq_of_mem_set hmem
        · exact hs.pinging j key data refused hold
        · cases hnew
      dsimp only
      cases hi : s.clients[i]? with
      | none => exact hdropped
      | some client =>
        cases succeeds with
        | false => exact hdropped
        | true =>
          refine hs.of_clients rfl fun j key data refused hmem => ?_
          obtain hold | hnew := List.mem_or_eq_of_mem_set hmem
          · exact hs.pinging j key data refused hold
          · cases hnew
            exact ⟨client, hi, rfl⟩

theorem Inv.ping (hs : s.Inv w) (n : Nat) (succeeds : Bool) : (s.ping n succeeds).Inv w := by
  unfold Process.ping
  cases hn : s.detectionAt n with
  | none => exact hs
  | some d =>
    cases d with
    | version i key => exact hs
    | ping i key data refused =>
      obtain ⟨client, hi, hdata⟩ := hs.pinging i key data refused (detectionAt_mem hn)
      dsimp only
      rw [hi]
      have hset := hs.setClient hi
        { client with
          capabilities := some (detected data (succeeds && !refused)), resolved := true }
        rfl rfl (by rw [hdata]; rfl)
      refine hset.of_clients rfl fun j key' data' refused' hmem => ?_
      obtain hold | hnew := List.mem_or_eq_of_mem_set hmem
      · exact hset.pinging j key' data' refused' hold
      · cases hnew

theorem Inv.step (hs : s.Inv w) {a : Action} (h : s.Unaided w a) : (s.step w a).Inv w := by
  cases a with
  | tick ms => exact hs.of_clients rfl hs.pinging
  | construct baseUrl token => exact hs.construct baseUrl token
  | detect i => exact hs.detect h
  | version n succeeds => exact hs.version n succeeds
  | ping n succeeds => exact hs.ping n succeeds
  | load baseUrl token =>
    refine (hs.construct baseUrl token).detect fun client hclient known hknown => ?_
    have hnew : (s.construct baseUrl token).clients[s.clients.length]? =
        some (newClient baseUrl token) := List.getElem?_concat_length
    rw [hnew] at hclient
    cases hclient
    have hmiss : (s.construct baseUrl token).cached (cacheKey w baseUrl token) = none := h
    cases hmiss.symm.trans hknown
  | use i => exact hs
  | registerWebhook baseUrl token => exact hs.construct baseUrl token

/-- Where clients know their instances, a step leaves its client informed exactly when its
detection is unaided. -/
theorem Inv.informed_iff (hs : s.Inv w) (a : Action) : s.Informed w a ↔ s.Unaided w a := by
  cases a with
  | tick ms => exact ⟨fun _ => trivial, fun _ => ⟨nofun, trivial⟩⟩
  | construct baseUrl token => exact ⟨fun _ => trivial, fun _ => ⟨nofun, trivial⟩⟩
  | version n succeeds => exact ⟨fun _ => trivial, fun _ => ⟨nofun, trivial⟩⟩
  | detect i =>
    dsimp only [Informed, Unaided, resolves, Process.step, Process.detect]
    cases hi : s.clients[i]? with
    | none => exact ⟨fun _ => nofun, fun _ => ⟨nofun, trivial⟩⟩
    | some client =>
      have hlt := (List.getElem?_eq_some_iff.mp hi).1
      simp only [Option.bind_some, Option.mem_def, Option.some.injEq, forall_eq', and_true]
      cases hcached : s.cached (cacheKey w client.baseUrl client.token) with
      | none => exact ⟨fun _ => nofun, fun _ => nofun⟩
      | some known =>
        simp only [Option.map_some, Option.some.injEq, Prod.mk.injEq, and_imp]
        constructor
        · rintro h _ rfl
          have hknown := h i known rfl rfl
          rw [List.getElem?_set_self hlt, Option.bind_some] at hknown
          exact hknown
        · rintro h _ _ rfl rfl
          rw [List.getElem?_set_self hlt, Option.bind_some]
          exact h known rfl
  | ping n succeeds =>
    refine ⟨fun _ => trivial, fun _ => ⟨fun i known hresolves => ?_, trivial⟩⟩
    dsimp only [resolves] at hresolves
    cases hn : s.detectionAt n with
    | none =>
      rw [hn] at hresolves
      cases hresolves
    | some d =>
      rw [hn] at hresolves
      cases d with
      | version i' key => cases hresolves
      | ping i' key data refused =>
        cases hresolves
        obtain ⟨client, hi, -⟩ := hs.pinging _ key data refused (detectionAt_mem hn)
        have hlt := (List.getElem?_eq_some_iff.mp hi).1
        simp only [Process.step, Process.ping, hn, hi]
        rw [List.getElem?_set_self hlt, Option.bind_some]
  | load baseUrl token =>
    have hnew : (s.construct baseUrl token).clients[s.clients.length]? =
        some (newClient baseUrl token) := List.getElem?_concat_length
    have hlt := (List.getElem?_eq_some_iff.mp hnew).1
    dsimp only [Informed, Unaided, resolves, Process.step, Process.detect]
    rw [hnew]
    dsimp only
    have hsame : (s.construct baseUrl token).cached
        (cacheKey w (newClient baseUrl token).baseUrl (newClient baseUrl token).token) =
        s.cached (cacheKey w baseUrl token) := rfl
    rw [hsame]
    cases hcached : s.cached (cacheKey w baseUrl token) with
    | none => exact ⟨fun _ => rfl, fun _ => ⟨nofun, trivial⟩⟩
    | some known =>
      constructor
      · intro h
        have hknown := h.1 _ known rfl
        dsimp only at hknown
        rw [List.getElem?_set_self hlt] at hknown
        cases hknown
      · intro h
        cases h
  | use i =>
    refine ⟨fun _ => trivial, fun _ => ⟨nofun, fun client hclient hresolved hee => ?_⟩⟩
    have hmem := List.mem_of_getElem? hclient
    obtain ⟨known, hknown⟩ := Option.ne_none_iff_exists'.mp (hs.resolved client hmem hresolved)
    have hedition := (hs.edition client hmem known hknown).trans hee
    rw [GitLabClient.ensureEE, hknown, Option.any_some, hedition]
    rfl
  | registerWebhook baseUrl token =>
    constructor
    · intro h hee
      cases h.2 hee
    · intro h
      exact ⟨nofun, fun hee => absurd hee h⟩

/-- In every run every client is informed exactly when no detection of a client that does not
know its instance finds the cache filled, and no webhook is registered at an enterprise
instance. -/
theorem along_informed_iff (w : Surroundings) (now : Nat) (acts : List Action) :
    Along (step w) (Informed w) (start now) acts ↔ Along (step w) (Unaided w) (start now) acts :=
  along_congr_of (I := Inv w)
    (fun _ a hs h => hs.step ((hs.informed_iff a).mp h)) (fun _ a hs => hs.informed_iff a)
    (inv_start now)

/-- An enterprise instance whose binding is loaded twice within the hour: the client of the
second load has no capabilities. -/
theorem not_informed_of_second_load :
    ¬ ∀ (w : Surroundings) (now : Nat) (acts : List Action),
      Along (step w) (Informed w) (start now) acts := by
  intro hall
  have hrun := hall ⟨id, fun _ => ⟨"17.0.0-ee", "17.0.0-ee"⟩⟩ 0
    [.load "https://gitlab" "token", .version 0 true, .ping 0 true,
      .load "https://gitlab" "token"]
  obtain ⟨-, -, -, hlast, -⟩ := hrun
  have hclient := hlast.1 1 (detected ⟨"17.0.0-ee", "17.0.0-ee"⟩ true) (by decide)
  exact absurd hclient (by decide)

/-- The flag in the body of a registered hook is the branch its client takes. -/
theorem epic_events_hookBody (bindingId publicBaseUrl token : String) (projectId : Int)
    (client : GitLabClient) :
    (BindingLifecycle.hookBody bindingId publicBaseUrl token projectId
      (client.capabilities.map fun known => if known.edition = .ee then "ee" else "ce")
      ).eventFlags.epic_events = epicEvents client := by
  unfold BindingLifecycle.hookBody epicEvents GitLabClient.ensureEE
  cases client.capabilities with
  | none => rfl
  | some known =>
    obtain ⟨version, edition, graphql, flags⟩ := known
    cases edition with
    | ce => rfl
    | ee => rfl

end Process

end HulyGitlab.Detection
