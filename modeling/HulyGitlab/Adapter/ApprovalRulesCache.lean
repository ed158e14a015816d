import HulyGitlab.Lib.OrderedMap
import HulyGitlab.Lib.Transition
import Mathlib.Data.List.Perm.Subperm

/-!
# The cache of approval rules

One GitLab client and the calls that read or change the approvals of one merge
request. A call runs until it has sent its request; what comes after the
answer is a step of its own, in any order. The requests are numbered as they
are sent, and an answer keeps the number of its request.
-/

namespace HulyGitlab.ApprovalRules

open Transition

/-- `APPROVAL_RULES_CACHE_TTL_MS` -/
def cacheTtlMs : Nat := 10 * 1000

/-- `APPROVAL_RULES_CACHE_CAPACITY` -/
def cacheCapacity : Nat := 256

/-- An entry, with the number of the request it is the answer to. -/
structure CacheEntry (R : Type) where
  value : List R
  expiresAt : Nat
  sent : Nat
  deriving DecidableEq

abbrev RulesCache (R : Type) := OrderedMap String (CacheEntry R)

/-- A merge request and the two ways to name its project. -/
structure MergeRequest where
  projectId : Int
  projectPath : String
  mrIid : Nat

inductive Address
  | id
  | path
  deriving DecidableEq

def MergeRequest.projectText (mr : MergeRequest) : Address → String
  | .id => toString mr.projectId
  | .path => mr.projectPath

def approvalRulesCacheKey (mr : MergeRequest) (address : Address) : String :=
  mr.projectText address ++ ":" ++ toString mr.mrIid

section Cache

variable {R : Type}

def approvalRulesCacheGet (now : Nat) (cache : RulesCache R) (key : String) :
    Option (CacheEntry R) × RulesCache R :=
  match cache.get? key with
  | none => (none, cache)
  | some entry =>
      if entry.expiresAt ≤ now then (none, cache.delete key)
      else (some entry, (cache.delete key).set key entry)

/-- The loop at the end of `approvalRulesCacheSet`. -/
def evictOldest (capacity : Nat) (cache : RulesCache R) : RulesCache R where
  entries := cache.entries.drop (cache.entries.length - capacity)
  nodup := by
    rw [List.map_drop]
    exact cache.nodup.sublist (List.drop_sublist _ _)

def approvalRulesCacheSet (now : Nat) (cache : RulesCache R) (key : String) (value : List R)
    (sent : Nat) : RulesCache R :=
  let others := if key ∈ cache.keys then cache.delete key else cache
  evictOldest cacheCapacity (others.set key ⟨value, now + cacheTtlMs, sent⟩)

/-- `invalidateApprovalRulesCache` -/
def invalidate (cache : RulesCache R) (key : String) : RulesCache R := cache.delete key

/-- A lookup returns a young entry, which stays, or nothing, and then the key is gone. -/
theorem approvalRulesCacheGet_cases (now : Nat) (cache : RulesCache R) (key : String) :
    (∃ entry rest, approvalRulesCacheGet now cache key = (some entry, rest) ∧
        cache.get? key = some entry ∧ now < entry.expiresAt ∧
        (∀ j, rest.get? j = cache.get? j) ∧ ∀ j ∈ rest.keys, j ∈ cache.keys) ∨
      ∃ rest, approvalRulesCacheGet now cache key = (none, rest) ∧
        (∀ entry, cache.get? key = some entry → entry.expiresAt ≤ now) ∧
        (∀ j, rest.get? j = if j = key then none else cache.get? j) ∧
        ∀ j ∈ rest.keys, j ∈ cache.keys := by
  unfold approvalRulesCacheGet
  cases hget : cache.get? key with
  | none =>
    refine .inr ⟨cache, rfl, nofun, fun j => ?_, fun j h => h⟩
    by_cases hj : j = key
    · rw [if_pos hj, hj, hget]
    · rw [if_neg hj]
  | some entry =>
    by_cases hold : entry.expiresAt ≤ now
    · refine .inr ⟨cache.delete key, if_pos hold, ?_, ?_, ?_⟩
      · intro e heq
        rw [← Option.some.inj heq]
        exact hold
      · intro j
        exact OrderedMap.get?_delete ..
      · intro j hj
        exact ((OrderedMap.mem_keys_delete ..).mp hj).2
    · refine .inl ⟨entry, _, if_neg hold, rfl, Nat.lt_of_not_le hold, ?_, ?_⟩
      · intro j
        rw [OrderedMap.get?_set, OrderedMap.get?_delete]
        by_cases hj : j = key
        · rw [if_pos hj, hj, hget]
        · rw [if_neg hj, if_neg hj]
      · intro j hj
        obtain rfl | hmem := (OrderedMap.mem_keys_set ..).mp hj
        · exact OrderedMap.mem_keys_of_get? hget
        · exact ((OrderedMap.mem_keys_delete ..).mp hmem).2

theorem evictOldest_of_le {capacity : Nat} {cache : RulesCache R}
    (h : cache.keys.length ≤ capacity) : evictOldest capacity cache = cache := by
  have hlength : cache.entries.length - capacity = 0 := by
    rw [OrderedMap.keys, List.length_map] at h
    exact Nat.sub_eq_zero_of_le h
  apply OrderedMap.ext
  dsimp only [evictOldest]
  rw [hlength, List.drop_zero]

end Cache

/-- What a call that waits for an answer is for. A read remembers the approvals that had
resolved when it started. -/
inductive Purpose
  | read (before : List Nat)
  | approve
  | unapprove
  deriving DecidableEq

structure Call where
  key : String
  sent : Nat
  purpose : Purpose
  deriving DecidableEq

/-- How the answer to a request is read, when it is not one to try again. -/
inductive Outcome (R : Type)
  | json (rules : List R)
  | notFound
  | error
  deriving DecidableEq

/-- What has happened to a key: an answer was stored, or an approval resolved. -/
inductive LogEvent
  | stored (key : String) (sent storedAt : Nat)
  | approved (key : String) (sent : Nat)
  deriving DecidableEq

def LogEvent.key : LogEvent → String
  | .stored key _ _ => key
  | .approved key _ => key

theorem find?_cons_self {event : LogEvent} {key : String} (h : event.key = key)
    (log : List LogEvent) : (event :: log).find? (·.key = key) = some event := by
  rw [List.find?_cons, decide_eq_true h]

theorem find?_cons_of_ne {event : LogEvent} {key : String} (h : event.key ≠ key)
    (log : List LogEvent) : (event :: log).find? (·.key = key) = log.find? (·.key = key) := by
  rw [List.find?_cons, decide_eq_false h]

/-- The request of a resolved approval. -/
def LogEvent.approval : LogEvent → Option Nat
  | .stored _ _ _ => none
  | .approved _ sent => some sent

structure Client (R : Type) where
  now : Nat
  /-- `ensureEE()` -/
  ee : Bool
  cache : RulesCache R
  calls : List (Option Call)
  /-- The number of requests sent. -/
  clock : Nat
  /-- What has happened, the latest first. -/
  log : List LogEvent

inductive Action (R : Type)
  | tick (ms : Nat)
  | detect (ee : Bool)
  | getMRApprovalRules (address : Address)
  | approveMR (address : Address)
  | unapproveMR (address : Address)
  /-- A request that was answered with 429 is sent again. -/
  | resend (call : Nat)
  | answer (call : Nat) (outcome : Outcome R)
  deriving DecidableEq

/-- A value a read returns, with the request it comes from and the approvals that had resolved
before the read started. -/
structure Returned (R : Type) where
  rules : List R
  sent : Option Nat
  before : List Nat

namespace Client

variable {R : Type}

def start (now : Nat) : Client R := ⟨now, false, .empty, [], 0, []⟩

/-- The requests of the approvals that have resolved. -/
def approvals (s : Client R) : List Nat := s.log.filterMap LogEvent.approval

/-- A call of `request`, up to its first await. -/
def send (s : Client R) (key : String) (purpose : Purpose) : Client R :=
  { s with clock := s.clock + 1, calls := s.calls ++ [some ⟨key, s.clock, purpose⟩] }

def getMRApprovalRules (s : Client R) (key : String) : Client R :=
  if s.ee then
    match approvalRulesCacheGet s.now s.cache key with
    | (some _, cache) => { s with cache := cache }
    | (none, cache) => { s with cache := cache }.send key (.read s.approvals)
  else s

/-- The answer of a read is stored and the read is over. -/
def store (s : Client R) (key : String) (rules : List R) (sent : Nat) : Client R :=
  { s with
    cache := approvalRulesCacheSet s.now s.cache key rules sent
    log := .stored key sent s.now :: s.log }

@[simp] theorem store_now (s : Client R) (key : String) (rules : List R) (sent : Nat) :
    (s.store key rules sent).now = s.now := by
  rw [store]

@[simp] theorem store_clock (s : Client R) (key : String) (rules : List R) (sent : Nat) :
    (s.store key rules sent).clock = s.clock := by
  rw [store]

@[simp] theorem store_calls (s : Client R) (key : String) (rules : List R) (sent : Nat) :
    (s.store key rules sent).calls = s.calls := by
  rw [store]

@[simp] theorem store_approvals (s : Client R) (key : String) (rules : List R) (sent : Nat) :
    (s.store key rules sent).approvals = s.approvals := by
  rw [store, approvals, approvals, List.filterMap_cons_none rfl]

/-- The rest of a call, once its request is answered. -/
def resume (s : Client R) (call : Call) (outcome : Outcome R) : Client R :=
  match call.purpose, outcome with
  | .read _, .json rules => s.store call.key rules call.sent
  | .read _, .notFound => s.store call.key [] call.sent
  | .approve, .json _ | .unapprove, .json _ =>
      { s with
        cache := invalidate s.cache call.key
        log := .approved call.key call.sent :: s.log }
  | _, _ => s

def callAt (s : Client R) (i : Nat) : Option Call := s.calls.getD i none

def step (mr : MergeRequest) (s : Client R) : Action R → Client R
  | .tick ms => { s with now := s.now + ms }
  | .detect ee => { s with ee := ee }
  | .getMRApprovalRules address => s.getMRApprovalRules (approvalRulesCacheKey mr address)
  | .approveMR address => s.send (approvalRulesCacheKey mr address) .approve
  | .unapproveMR address => s.send (approvalRulesCacheKey mr address) .unapprove
  | .resend i =>
      match s.callAt i with
      | some call =>
          { s with
            clock := s.clock + 1
            calls := s.calls.set i (some { call with sent := s.clock }) }
      | none => s
  | .answer i outcome =>
      match s.callAt i with
      | some call => { s with calls := s.calls.set i none }.resume call outcome
      | none => s

/-- What a read returns in this step: without an edition that has rules the empty list, a cached
answer, or the answer that has come. -/
def returned (mr : MergeRequest) (s : Client R) : Action R → Option (Returned R)
  | .getMRApprovalRules address =>
      if s.ee then
        (approvalRulesCacheGet s.now s.cache (approvalRulesCacheKey mr address)).1.map fun entry =>
          ⟨entry.value, some entry.sent, s.approvals⟩
      else some ⟨[], none, s.approvals⟩
  | .answer i outcome =>
      match s.callAt i, outcome with
      | some ⟨_, sent, .read before⟩, .json rules => some ⟨rules, some sent, before⟩
      | some ⟨_, sent, .read before⟩, .notFound => some ⟨[], some sent, before⟩
      | _, _ => none
  | _ => none

/-- Rules that a read returns come from a request sent after every approval that had resolved
before the read. -/
def Fresh (mr : MergeRequest) (s : Client R) (a : Action R) : Prop :=
  ∀ r ∈ s.returned mr a, ∀ sent ∈ r.sent, ∀ approval ∈ r.before, approval < sent

/-- A read comes ten seconds or more after the last answer was stored under its key, or an
approval has resolved under that key since, or no approval that has resolved was sent after the
request of that answer. -/
def Undisturbed (mr : MergeRequest) (s : Client R) : Action R → Prop
  | .getMRApprovalRules address => s.ee = true → ∀ sent storedAt,
      s.log.find? (·.key = approvalRulesCacheKey mr address) =
        some (.stored (approvalRulesCacheKey mr address) sent storedAt) →
      s.now < storedAt + cacheTtlMs → ∀ approval ∈ s.approvals, approval < sent
  | _ => True

variable {mr : MergeRequest} {s : Client R}

/-- What the requests of pending calls and resolved approvals are numbered with. -/
structure Stamped (mr : MergeRequest) (s : Client R) : Prop where
  calls : ∀ call, some call ∈ s.calls → call.sent < s.clock
  approvals : ∀ approval ∈ s.approvals, approval < s.clock
  /-- A read's request was sent after the approvals it knows of. -/
  before : ∀ call before, some call ∈ s.calls → call.purpose = .read before →
    ∀ approval ∈ before, approval < call.sent
  keys : ∀ call, some call ∈ s.calls → ∃ address, call.key = approvalRulesCacheKey mr address

/-- An entry is the answer that was stored last, and a young answer that was stored last has an
entry. -/
structure Agrees (mr : MergeRequest) (s : Client R) : Prop where
  keys : ∀ key ∈ s.cache.keys, ∃ address, key = approvalRulesCacheKey mr address
  cached : ∀ key entry, s.cache.get? key = some entry → ∃ storedAt,
    s.log.find? (·.key = key) = some (.stored key entry.sent storedAt) ∧
      entry.expiresAt = storedAt + cacheTtlMs
  stored : ∀ key sent storedAt,
    s.log.find? (·.key = key) = some (.stored key sent storedAt) →
      s.now < storedAt + cacheTtlMs → ∃ entry, s.cache.get? key = some entry ∧ entry.sent = sent

theorem stamped_start (now : Nat) : (start now : Client R).Stamped mr := by
  refine ⟨?_, ?_, ?_, ?_⟩ <;> simp [start, approvals]

theorem agrees_start (now : Nat) : (start now : Client R).Agrees mr := by
  refine ⟨?_, ?_, ?_⟩ <;> simp [start]

theorem some_callAt_mem {i : Nat} {call : Call} (h : s.callAt i = some call) :
    some call ∈ s.calls := by
  unfold callAt at h
  rw [List.getD_eq_getElem?_getD] at h
  cases hi : s.calls[i]? with
  | none =>
    rw [hi] at h
    cases h
  | some c =>
    rw [hi] at h
    obtain rfl : c = some call := h
    exact List.mem_of_getElem? hi

theorem Stamped.send (hs : s.Stamped mr) (address : Address) {purpose : Purpose}
    (h : ∀ before, purpose = .read before → ∀ approval ∈ before, approval < s.clock) :
    (s.send (approvalRulesCacheKey mr address) purpose).Stamped mr where
  calls call hcall := by
    obtain hold | hnew := List.mem_append.mp hcall
    · exact Nat.lt_succ_of_lt (hs.calls call hold)
    · obtain rfl := Option.some.inj (List.mem_singleton.mp hnew)
      exact Nat.lt_succ_self _
  approvals approval happroval := Nat.lt_succ_of_lt (hs.approvals approval happroval)
  before call before hcall hpurpose := by
    obtain hold | hnew := List.mem_append.mp hcall
    · exact hs.before call before hold hpurpose
    · obtain rfl := Option.some.inj (List.mem_singleton.mp hnew)
      exact h before hpurpose
  keys call hcall := by
    obtain hold | hnew := List.mem_append.mp hcall
    · exact hs.keys call hold
    · obtain rfl := Option.some.inj (List.mem_singleton.mp hnew)
      exact ⟨address, rfl⟩

/-- Every other step keeps the numbers, or moves on by one. -/
theorem Stamped.mono (hs : s.Stamped mr) {s' : Client R}
    (hcalls : ∀ call, some call ∈ s'.calls → some call ∈ s.calls)
    (hclock : s'.clock = s.clock) (happrovals : ∀ a ∈ s'.approvals, a < s.clock) :
    s'.Stamped mr where
  calls call hcall := hclock ▸ hs.calls call (hcalls call hcall)
  approvals := hclock ▸ happrovals
  before call before hcall := hs.before call before (hcalls call hcall)
  keys call hcall := hs.keys call (hcalls call hcall)

theorem Stamped.resend (hs : s.Stamped mr) {i : Nat} {call : Call} (h : s.callAt i = some call) :
    Stamped mr
      { s with
        clock := s.clock + 1
        calls := s.calls.set i (some { call with sent := s.clock }) } := by
  have hmem := some_callAt_mem h
  refine ⟨?_, ?_, ?_, ?_⟩
  · intro c hc
    obtain hold | hnew := List.mem_or_eq_of_mem_set hc
    · exact Nat.lt_succ_of_lt (hs.calls c hold)
    · obtain rfl := Option.some.inj hnew
      exact Nat.lt_succ_self _
  · exact fun a ha => Nat.lt_succ_of_lt (hs.approvals a ha)
  · intro c before hc hpurpose a ha
    obtain hold | hnew := List.mem_or_eq_of_mem_set hc
    · exact hs.before c before hold hpurpose a ha
    · obtain rfl := Option.some.inj hnew
      exact Nat.lt_trans (hs.before call before hmem hpurpose a ha) (hs.calls call hmem)
  · intro c hc
    obtain hold | hnew := List.mem_or_eq_of_mem_set hc
    · exact hs.keys c hold
    · obtain rfl := Option.some.inj hnew
      exact hs.keys call hmem

theorem Agrees.length_le {keys : List String} (hnodup : keys.Nodup)
    (h : ∀ key ∈ keys, ∃ address, key = approvalRulesCacheKey mr address) : keys.length ≤ 2 := by
  have hsubset : keys ⊆ [approvalRulesCacheKey mr .id, approvalRulesCacheKey mr .path] := by
    intro key hkey
    obtain ⟨address, rfl⟩ := h key hkey
    cases address with
    | id => exact List.mem_cons_self
    | path => exact List.mem_cons_of_mem _ List.mem_cons_self
  exact (List.Nodup.subperm hnodup hsubset).length_le

/-- The cache may change where nothing is younger than ten seconds. -/
theorem Agrees.of_cache (hs : s.Agrees mr) {s' : Client R} (hlog : s'.log = s.log)
    (hnow : s.now ≤ s'.now) (hkeys : ∀ key ∈ s'.cache.keys, key ∈ s.cache.keys)
    (hcached : ∀ key entry, s'.cache.get? key = some entry → s.cache.get? key = some entry)
    (hstored : ∀ key entry, s.cache.get? key = some entry → s'.now < entry.expiresAt →
      s'.cache.get? key = some entry) : s'.Agrees mr where
  keys key hkey := hs.keys key (hkeys key hkey)
  cached key entry hentry := by
    rw [hlog]
    exact hs.cached key entry (hcached key entry hentry)
  stored key sent storedAt hfind hyoung := by
    rw [hlog] at hfind
    obtain ⟨entry, hget, hsent⟩ := hs.stored key sent storedAt hfind (Nat.lt_of_le_of_lt hnow hyoung)
    obtain ⟨at', hfind', hexpires⟩ := hs.cached key entry hget
    rw [hfind] at hfind'
    cases hfind'
    exact ⟨entry, hstored key entry hget (by rw [hexpires]; exact hyoung), hsent⟩

theorem Agrees.store (hs : s.Agrees mr) (address : Address) (rules : List R) (sent : Nat) :
    (s.store (approvalRulesCacheKey mr address) rules sent).Agrees mr := by
  have hkeys : ∀ key ∈ ((if approvalRulesCacheKey mr address ∈ s.cache.keys then
      s.cache.delete (approvalRulesCacheKey mr address) else s.cache).set
        (approvalRulesCacheKey mr address) ⟨rules, s.now + cacheTtlMs, sent⟩).keys,
      ∃ address, key = approvalRulesCacheKey mr address := by
    intro key hkey
    obtain rfl | hkey := (OrderedMap.mem_keys_set ..).mp hkey
    · exact ⟨address, rfl⟩
    · by_cases hmem : approvalRulesCacheKey mr address ∈ s.cache.keys
      · rw [if_pos hmem] at hkey
        exact hs.keys key ((OrderedMap.mem_keys_delete ..).mp hkey).2
      · rw [if_neg hmem] at hkey
        exact hs.keys key hkey
  have hfits := @evictOldest_of_le R cacheCapacity _
    (Nat.le_trans (Agrees.length_le (OrderedMap.nodup_keys _) hkeys) (by decide))
  have hget : ∀ key, (approvalRulesCacheSet s.now s.cache (approvalRulesCacheKey mr address) rules
      sent).get? key = if key = approvalRulesCacheKey mr address
        then some ⟨rules, s.now + cacheTtlMs, sent⟩ else s.cache.get? key := by
    intro key
    unfold approvalRulesCacheSet
    dsimp only
    rw [hfits, OrderedMap.get?_set]
    refine ite_congr rfl (fun _ => rfl) fun hkey => ?_
    by_cases hmem : approvalRulesCacheKey mr address ∈ s.cache.keys
    · rw [if_pos hmem, OrderedMap.get?_delete_of_ne _ hkey]
    · rw [if_neg hmem]
  refine ⟨?_, ?_, ?_⟩
  · intro key hkey
    unfold Client.store approvalRulesCacheSet at hkey
    dsimp only at hkey
    rw [hfits] at hkey
    exact hkeys key hkey
  · intro key entry hentry
    have hentry' := (hget key).symm.trans hentry
    by_cases hkey : key = approvalRulesCacheKey mr address
    · rw [if_pos hkey] at hentry'
      cases hentry'
      exact ⟨s.now, by rw [hkey]; exact find?_cons_self rfl _, rfl⟩
    · rw [if_neg hkey] at hentry'
      obtain ⟨storedAt, hfind, hexpires⟩ := hs.cached key entry hentry'
      exact ⟨storedAt, (find?_cons_of_ne (Ne.symm hkey) _).trans hfind, hexpires⟩
  · intro key sent' storedAt hfind hyoung
    have hlog : (s.store (approvalRulesCacheKey mr address) rules sent).log =
        .stored (approvalRulesCacheKey mr address) sent s.now :: s.log := rfl
    rw [hlog] at hfind
    rw [store_now] at hyoung
    have hentry := hget key
    by_cases hkey : key = approvalRulesCacheKey mr address
    · rw [if_pos hkey] at hentry
      have hself : (LogEvent.stored (approvalRulesCacheKey mr address) sent s.now).key = key :=
        hkey.symm
      rw [find?_cons_self hself] at hfind
      cases hfind
      exact ⟨_, hentry, rfl⟩
    · rw [if_neg hkey] at hentry
      have hother : (LogEvent.stored (approvalRulesCacheKey mr address) sent s.now).key ≠ key :=
        Ne.symm hkey
      rw [find?_cons_of_ne hother] at hfind
      obtain ⟨entry, hold, hsent⟩ := hs.stored key sent' storedAt hfind hyoung
      exact ⟨entry, hentry.trans hold, hsent⟩

theorem Agrees.approved (hs : s.Agrees mr) (key : String) (sent : Nat) :
    Agrees mr
      { s with cache := invalidate s.cache key, log := .approved key sent :: s.log } where
  keys j hj := hs.keys j ((OrderedMap.mem_keys_delete ..).mp hj).2
  cached j entry hentry := by
    have hget := (OrderedMap.get?_delete s.cache key j).symm.trans hentry
    by_cases hj : j = key
    · rw [if_pos hj] at hget
      cases hget
    · rw [if_neg hj] at hget
      obtain ⟨storedAt, hfind, hexpires⟩ := hs.cached j entry hget
      have hother : (LogEvent.approved key sent).key ≠ j := Ne.symm hj
      exact ⟨storedAt, (find?_cons_of_ne hother _).trans hfind, hexpires⟩
  stored j sent' storedAt hfind hyoung := by
    by_cases hj : j = key
    · have hself : (LogEvent.approved key sent).key = j := hj.symm
      rw [find?_cons_self hself] at hfind
      cases hfind
    · have hother : (LogEvent.approved key sent).key ≠ j := Ne.symm hj
      rw [find?_cons_of_ne hother] at hfind
      obtain ⟨entry, hget, hsent⟩ := hs.stored j sent' storedAt hfind hyoung
      exact ⟨entry, (OrderedMap.get?_delete_of_ne _ hj).trans hget, hsent⟩

structure Inv (mr : MergeRequest) (s : Client R) : Prop where
  stamped : s.Stamped mr
  agrees : s.Agrees mr

theorem Inv.send (hs : s.Inv mr) (address : Address) {purpose : Purpose}
    (h : ∀ before, purpose = .read before → ∀ approval ∈ before, approval < s.clock) :
    (s.send (approvalRulesCacheKey mr address) purpose).Inv mr :=
  ⟨hs.stamped.send address h, ⟨hs.agrees.keys, hs.agrees.cached, hs.agrees.stored⟩⟩

theorem Inv.getMRApprovalRules (hs : s.Inv mr) (address : Address) :
    (s.getMRApprovalRules (approvalRulesCacheKey mr address)).Inv mr := by
  unfold Client.getMRApprovalRules
  by_cases hee : s.ee = true
  · rw [if_pos hee]
    obtain ⟨entry, rest, hget, -, -, hsame, hkeys⟩ | ⟨rest, hget, hold, hrest, hkeys⟩ :=
      approvalRulesCacheGet_cases s.now s.cache (approvalRulesCacheKey mr address)
    · rw [hget]
      exact ⟨hs.stamped.mono (fun _ h => h) rfl hs.stamped.approvals,
        hs.agrees.of_cache rfl (Nat.le_refl _) hkeys (fun j e h => (hsame j).symm.trans h)
          fun j e h _ => (hsame j).trans h⟩
    · rw [hget]
      have hdropped : Inv mr { s with cache := rest } := by
        refine ⟨hs.stamped.mono (fun _ h => h) rfl hs.stamped.approvals,
          hs.agrees.of_cache rfl (Nat.le_refl _) hkeys (fun j e h => ?_) fun j e h hyoung => ?_⟩
        · have hj := (hrest j).symm.trans h
          by_cases heq : j = approvalRulesCacheKey mr address
          · rw [if_pos heq] at hj
            cases hj
          · rw [if_neg heq] at hj
            exact hj
        · have heq : j ≠ approvalRulesCacheKey mr address := by
            rintro rfl
            exact Nat.not_le_of_lt hyoung (hold e h)
          exact ((hrest j).trans (if_neg heq)).trans h
      refine hdropped.send address fun before hbefore approval happroval => ?_
      obtain rfl := Purpose.read.inj hbefore
      exact hs.stamped.approvals approval happroval
  · rw [if_neg hee]
    exact hs

theorem Inv.settled (hs : s.Inv mr) (i : Nat) : Inv mr { s with calls := s.calls.set i none } := by
  refine ⟨hs.stamped.mono (fun call hcall => ?_) rfl hs.stamped.approvals,
    ⟨hs.agrees.keys, hs.agrees.cached, hs.agrees.stored⟩⟩
  obtain hold | hnew := List.mem_or_eq_of_mem_set hcall
  · exact hold
  · cases hnew

theorem Inv.resume (hs : s.Inv mr) {call : Call} (outcome : Outcome R)
    (hkey : ∃ address, call.key = approvalRulesCacheKey mr address)
    (hsent : call.sent < s.clock) : (s.resume call outcome).Inv mr := by
  have hread : ∀ rules, (s.store call.key rules call.sent).Inv mr := by
    obtain ⟨address, hkey⟩ := hkey
    intro rules
    rw [hkey]
    have hstamped := hs.stamped.approvals
    rw [← store_approvals s (approvalRulesCacheKey mr address) rules call.sent] at hstamped
    exact ⟨hs.stamped.mono (fun _ h => by rwa [store_calls] at h) (store_clock ..) hstamped,
      hs.agrees.store address rules call.sent⟩
  have happroved : Inv mr
      { s with
        cache := invalidate s.cache call.key
        log := .approved call.key call.sent :: s.log } := by
    refine ⟨hs.stamped.mono (fun _ h => h) rfl ?_, hs.agrees.approved call.key call.sent⟩
    intro approval happroval
    obtain rfl | hold := List.mem_cons.mp happroval
    · exact hsent
    · exact hs.stamped.approvals approval hold
  unfold Client.resume
  obtain ⟨key, sent, purpose⟩ := call
  cases purpose with
  | read before =>
    cases outcome with
    | json rules => exact hread rules
    | notFound => exact hread []
    | error => exact hs
  | approve =>
    cases outcome with
    | json rules => exact happroved
    | notFound => exact hs
    | error => exact hs
  | unapprove =>
    cases outcome with
    | json rules => exact happroved
    | notFound => exact hs
    | error => exact hs

theorem Inv.step (hs : s.Inv mr) (a : Action R) : (s.step mr a).Inv mr := by
  cases a with
  | tick ms =>
    exact ⟨hs.stamped.mono (fun _ h => h) rfl hs.stamped.approvals,
      hs.agrees.of_cache rfl (Nat.le_add_right _ _) (fun _ h => h) (fun _ _ h => h)
        fun _ _ h _ => h⟩
  | detect ee =>
    exact ⟨hs.stamped.mono (fun _ h => h) rfl hs.stamped.approvals,
      hs.agrees.of_cache rfl (Nat.le_refl _) (fun _ h => h) (fun _ _ h => h) fun _ _ h _ => h⟩
  | getMRApprovalRules address => exact hs.getMRApprovalRules address
  | approveMR address => exact hs.send address nofun
  | unapproveMR address => exact hs.send address nofun
  | resend i =>
    cases hcall : s.callAt i with
    | none =>
      simp only [Client.step, hcall]
      exact hs
    | some call =>
      simp only [Client.step, hcall]
      exact ⟨hs.stamped.resend hcall, ⟨hs.agrees.keys, hs.agrees.cached, hs.agrees.stored⟩⟩
  | answer i outcome =>
    cases hcall : s.callAt i with
    | none =>
      simp only [Client.step, hcall]
      exact hs
    | some call =>
      simp only [Client.step, hcall]
      have hmem := some_callAt_mem hcall
      exact (hs.settled i).resume outcome (hs.stamped.keys call hmem) (hs.stamped.calls call hmem)

/-- An answer is fresh for the read that waited for it. -/
theorem Inv.fresh_answer (hs : s.Inv mr) (i : Nat) (outcome : Outcome R) :
    s.Fresh mr (.answer i outcome) := by
  intro r hr sent hsent approval happroval
  cases hcall : s.callAt i with
  | none =>
    simp only [returned, hcall] at hr
    cases hr
  | some call =>
    have hmem := some_callAt_mem hcall
    simp only [returned, hcall] at hr
    obtain ⟨key, number, purpose⟩ := call
    cases purpose with
    | read before =>
      have hbefore := hs.stamped.before _ before hmem rfl
      cases outcome with
      | json rules =>
        cases hr
        cases hsent
        exact hbefore approval happroval
      | notFound =>
        cases hr
        cases hsent
        exact hbefore approval happroval
      | error => cases hr
    | approve => cases hr
    | unapprove => cases hr

/-- A read is fresh exactly when it is undisturbed. -/
theorem Inv.fresh_iff (hs : s.Inv mr) (a : Action R) : s.Fresh mr a ↔ s.Undisturbed mr a := by
  cases a with
  | getMRApprovalRules address =>
    dsimp only [Fresh, returned, Undisturbed]
    by_cases hee : s.ee = true
    · rw [if_pos hee]
      simp only [hee, true_implies]
      obtain ⟨entry, rest, hget, hentry, hyoung, -, -⟩ | ⟨rest, hget, hold, -, -⟩ :=
        approvalRulesCacheGet_cases s.now s.cache (approvalRulesCacheKey mr address)
      · rw [hget]
        obtain ⟨storedAt, hfind, hexpires⟩ := hs.agrees.cached _ entry hentry
        rw [hexpires] at hyoung
        constructor
        · intro h sent at' hfind' hyoung' approval happroval
          rw [hfind] at hfind'
          cases hfind'
          exact h _ rfl _ rfl approval happroval
        · intro h r hr sent hsent approval happroval
          cases hr
          cases hsent
          exact h entry.sent storedAt hfind hyoung approval happroval
      · rw [hget]
        refine ⟨fun _ sent storedAt hfind hyoung => ?_, fun _ r hr => nomatch hr⟩
        obtain ⟨entry, hentry, -⟩ := hs.agrees.stored _ sent storedAt hfind hyoung
        obtain ⟨at', hfind', hexpires⟩ := hs.agrees.cached _ entry hentry
        rw [hfind] at hfind'
        cases hfind'
        have hexpired := hold entry hentry
        rw [hexpires] at hexpired
        exact absurd hexpired (Nat.not_le_of_lt hyoung)
    · rw [if_neg hee]
      refine ⟨fun _ h => absurd h hee, fun _ r hr sent hsent => ?_⟩
      cases hr
      cases hsent
  | answer i outcome => exact ⟨fun _ => trivial, fun _ => hs.fresh_answer i outcome⟩
  | tick ms => exact ⟨fun _ => trivial, fun _ r hr => nomatch hr⟩
  | detect ee => exact ⟨fun _ => trivial, fun _ r hr => nomatch hr⟩
  | approveMR address => exact ⟨fun _ => trivial, fun _ r hr => nomatch hr⟩
  | unapproveMR address => exact ⟨fun _ => trivial, fun _ r hr => nomatch hr⟩
  | resend i => exact ⟨fun _ => trivial, fun _ r hr => nomatch hr⟩

/-- In every run, every read is fresh exactly when every read is undisturbed. -/
theorem along_fresh_iff (mr : MergeRequest) (now : Nat) (acts : List (Action R)) :
    Along (step mr) (Fresh mr) (start now) acts ↔
      Along (step mr) (Undisturbed mr) (start now) acts :=
  along_congr (I := Inv mr) (fun _ a hs => hs.step a) (fun _ a hs => hs.fresh_iff a)
    ⟨stamped_start now, agrees_start now⟩

/-- A read that was in flight while an approval went through stores what it was answered with,
and the next read returns that. -/
theorem not_fresh_after_late_answer :
    ¬ ∀ (mr : MergeRequest) (now : Nat) (acts : List (Action String)),
      Along (step mr) (Fresh mr) (start now) acts := by
  intro hall
  have hrun := hall ⟨7, "group/project", 1⟩ 0 [.detect true, .getMRApprovalRules .id,
    .approveMR .id, .answer 1 (.json []), .answer 0 (.json ["stale"]), .getMRApprovalRules .id]
  obtain ⟨-, -, -, -, -, hlast, -⟩ := hrun
  exact absurd (hlast ⟨["stale"], some 0, [1]⟩ rfl 0 rfl 1 (by decide)) (by decide)

end Client

end HulyGitlab.ApprovalRules
