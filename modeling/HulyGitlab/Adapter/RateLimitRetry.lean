import HulyGitlab.Sync.Keys

/-!
# Requests that are tried again

`withRateLimitRetry`: a request that GitLab answers with 429 is sent again, at
most five times, after the time that the headers of the answer ask for. When
that time is really waited for.
-/

namespace HulyGitlab.Retry

/-- What an integer is on the platform: rounded, or infinite. -/
inductive Number
  | finite (n : Int)
  | infinite (negative : Bool)
  deriving DecidableEq

/-- A text that is a number of seconds. -/
def isIntegerText (s : List Char) : Bool :=
  let digits := if s.head? = some '-' then s.drop 1 else s
  digits ≠ [] ∧ digits.all Char.isDigit

/-- `parseInt` before the rounding; it takes more characters for blanks than the keys have. -/
def readInteger (value : List Char) : Option Int := parseInt (value.dropWhile isJsSpace)

/-- `new Date(value).getTime()`, and the numbers of the platform: integers are exact up to
`2 ^ 53`, larger ones stay large, and what a number's text is read as has that text only where
it is made of digits. -/
structure RetryPlatform where
  parseDate : List Char → Option Int
  round : Int → Number
  numberText : Number → List Char
  round_exact : ∀ n : Int, n.natAbs ≤ 2 ^ 53 → round n = .finite n
  round_large : ∀ n : Int, 2 ^ 53 < n →
    (∃ m : Int, 2 ^ 53 ≤ m ∧ round n = .finite m) ∨ round n = .infinite false
  numberText_exact : ∀ n : Int, n.natAbs ≤ 2 ^ 53 → numberText (.finite n) = (toString n).toList
  numberText_read : ∀ value n, readInteger value = some n →
    numberText (round n) = trim value → isIntegerText (trim value) = true

structure RateLimitHeaders where
  retryAfter : Option (List Char)
  rateLimitReset : Option (List Char)
  xRateLimitReset : Option (List Char)
  deriving DecidableEq

namespace Number

variable (p : RetryPlatform)

/-- `x * 1000`. -/
def thousandfold : Number → Number
  | .finite n => p.round (1000 * n)
  | .infinite negative => .infinite negative

/-- `x - now`. -/
def since (now : Nat) : Number → Number
  | .finite n => p.round (n - now)
  | .infinite negative => .infinite negative

/-- `Math.max(x, ms)`. -/
def atLeast (ms : Nat) : Number → Number
  | .finite n => .finite (max n ms)
  | .infinite false => .infinite false
  | .infinite true => .finite ms

end Number

def maxRetries : Nat := 5

def baseDelayMs : Nat := 500

def maxDelayMs : Nat := 30000

/-- `2 ^ 31 - 1`; longer delays of `setTimeout` are one millisecond. -/
def timeoutMax : Nat := 2 ^ 31 - 1

/-- The milliseconds after which a timer fires. -/
def timeout : Number → Nat
  | .finite n => if 1 ≤ n ∧ n ≤ timeoutMax then n.toNat else 1
  | .infinite _ => 1

def exponentialDelay (attempt : Nat) : Nat := min (baseDelayMs * 2 ^ attempt) maxDelayMs

section Headers

variable (p : RetryPlatform)

/-- The part of `parseRetryAfter` for what is no number of seconds. -/
def dateWait (value : List Char) (now : Nat) : Number :=
  match p.parseDate value with
  | some date => ((Number.finite date).since p now).atLeast 0
  | none => .finite baseDelayMs

def parseRetryAfter (value : List Char) (now : Nat) : Number :=
  match readInteger value with
  | some n =>
      let asSeconds := p.round n
      if p.numberText asSeconds = trim value then asSeconds.thousandfold p
      else dateWait p value now
  | none => dateWait p value now

/-- The header that counts, `Retry-After` unless it is missing or empty. -/
def RateLimitHeaders.retryAfterText (headers : RateLimitHeaders) : Option (List Char) :=
  headers.retryAfter.filter (· ≠ [])

def RateLimitHeaders.resetText (headers : RateLimitHeaders) : Option (List Char) :=
  headers.rateLimitReset.orElse fun _ => headers.xRateLimitReset

def extractWaitMs (headers : RateLimitHeaders) (now : Nat) : Number :=
  match headers.retryAfterText with
  | some value => parseRetryAfter p value now
  | none =>
      match headers.resetText.bind readInteger with
      | some n => (((p.round n).thousandfold p).since p now).atLeast 0
      | none => .finite baseDelayMs

/-- The milliseconds that headers ask for: seconds, the time until a date, or until a second
of the epoch. -/
def demanded (headers : RateLimitHeaders) (now : Nat) : Int :=
  match headers.retryAfterText with
  | some value =>
      match readInteger value, isIntegerText (trim value) with
      | some n, true => 1000 * n
      | _, _ => ((p.parseDate value).map (· - (now : Int))).getD 0
  | none => ((headers.resetText.bind readInteger).map (1000 * · - (now : Int))).getD 0

/-- What is asked for is no more than a timer takes. A number of seconds with more zeros than
it needs is not read as one: the wait is that of a date, or the backoff. -/
def Honourable (attempt : Nat) (headers : RateLimitHeaders) (now : Nat) : Prop :=
  match headers.retryAfterText with
  | some value =>
      match readInteger value, isIntegerText (trim value) with
      | some n, true =>
          if (toString n).toList = trim value then 1000 * n ≤ timeoutMax
          else 1000 * n ≤ timeout ((dateWait p value now).atLeast (exponentialDelay attempt))
      | _, _ => ∀ date ∈ p.parseDate value, date - (now : Int) ≤ timeoutMax
  | none => ∀ n ∈ headers.resetText.bind readInteger, 1000 * n - (now : Int) ≤ timeoutMax

end Headers

structure Response (B : Type*) where
  status : Nat
  headers : RateLimitHeaders
  body : B

/-- The answer to a request, and the milliseconds until it comes. -/
structure Exchange (B : Type*) where
  response : Response B
  took : Nat

structure Call (B : Type*) where
  calledAt : Nat
  answeredAt : Nat
  response : Response B

inductive Result (B : Type*)
  | body (b : B)
  | rateLimitError (retryAfterMs : Number)

section Loop

variable {B : Type*} (p : RetryPlatform) (exchanges : Nat → Exchange B)

def callAt (attempt now : Nat) : Call B :=
  ⟨now, now + (exchanges attempt).took, (exchanges attempt).response⟩

/-- What a 429 is followed by. -/
def waitAfter (attempt : Nat) (call : Call B) : Number :=
  (extractWaitMs p call.response.headers call.answeredAt).atLeast (exponentialDelay attempt)

/-- The loop, with the attempts that are left; the throw behind it is never reached. -/
def retryFrom : Nat → Nat → Number → Nat → List (Call B) × Result B
  | 0, attempt, lastWaitMs, now =>
      let call := callAt exchanges attempt now
      ([call], if call.response.status ≠ 429 then .body call.response.body
        else .rateLimitError lastWaitMs)
  | left + 1, attempt, _, now =>
      let call := callAt exchanges attempt now
      if call.response.status ≠ 429 then ([call], .body call.response.body)
      else
        let wait := waitAfter p attempt call
        let rest := retryFrom left (attempt + 1) wait (call.answeredAt + timeout wait)
        (call :: rest.1, rest.2)

def withRateLimitRetry (now : Nat) : List (Call B) × Result B :=
  retryFrom p exchanges maxRetries 0 (.finite 0) now

/-- Between a 429 and the next call there is the time its headers ask for. -/
def Waits : List (Call B) → Prop
  | call :: next :: rest =>
      call.answeredAt + demanded p call.response.headers call.answeredAt ≤ next.calledAt ∧
        Waits (next :: rest)
  | _ => True

def HonourableFrom (attempt : Nat) : List (Call B) → Prop
  | call :: next :: rest =>
      Honourable p attempt call.response.headers call.answeredAt ∧
        HonourableFrom (attempt + 1) (next :: rest)
  | _ => True

/-- What the wrapper promises of a run. -/
structure Polite (run : List (Call B) × Result B) : Prop where
  atMostSix : run.1.length ≤ 6
  returns : ∀ i ≤ maxRetries, (∀ j < i, (exchanges j).response.status = 429) →
    (exchanges i).response.status ≠ 429 → run.2 = .body (exchanges i).response.body
  throws : (∃ ms, run.2 = .rateLimitError ms) ↔
    ∀ i ≤ maxRetries, (exchanges i).response.status = 429
  waits : Waits p run.1

end Loop

section Numbers

variable (p : RetryPlatform)

theorem timeout_le (w : Number) : timeout w ≤ timeoutMax := by
  have hmax : timeoutMax = 2147483647 := rfl
  cases w with
  | finite n =>
    dsimp only [timeout]
    split <;> omega
  | infinite negative =>
    dsimp only [timeout]
    omega

theorem exponentialDelay_pos (attempt : Nat) : 1 ≤ exponentialDelay attempt := by
  have := Nat.one_le_two_pow (n := attempt)
  unfold exponentialDelay baseDelayMs maxDelayMs
  omega

theorem exponentialDelay_le (attempt : Nat) : exponentialDelay attempt ≤ timeoutMax := by
  have hmax : timeoutMax = 2147483647 := rfl
  unfold exponentialDelay maxDelayMs
  omega

/-- A wait that no timer takes. -/
def Number.IsLong (w : Number) : Prop := w = .infinite false ∨ ∃ m : Int, timeoutMax < m ∧ w = .finite m

/-- A wait says what is asked for, or both are too long for a timer. -/
def Number.Says (w : Number) (x : Int) : Prop := w = .finite x ∨ ((timeoutMax : Int) < x ∧ w.IsLong)

theorem Number.Says.timeout_iff {w : Number} {x : Int} (h : w.Says x) (hx : 0 < x) (attempt : Nat) :
    x ≤ timeout (w.atLeast (exponentialDelay attempt)) ↔ x ≤ timeoutMax := by
  have hpos := exponentialDelay_pos attempt
  have hle := exponentialDelay_le attempt
  have hmax : timeoutMax = 2147483647 := rfl
  rcases h with rfl | ⟨hlong, rfl | ⟨m, hm, rfl⟩⟩
  · simp only [Number.atLeast, timeout]
    split <;> omega
  · simp only [Number.atLeast, timeout]
    omega
  · simp only [Number.atLeast, timeout]
    split <;> omega

theorem says_of_round {n : Int} (h : 0 < n) : (p.round n).Says n := by
  have hmax : timeoutMax = 2147483647 := rfl
  by_cases hle : n ≤ 2 ^ 53
  · exact .inl (p.round_exact n (by omega))
  · refine .inr ⟨by omega, ?_⟩
    rcases p.round_large n (by omega) with ⟨m, hm, heq⟩ | heq
    · exact .inr ⟨m, by omega, heq⟩
    · exact .inl heq

theorem Number.Says.of_long {w : Number} {x : Int} (hx : (timeoutMax : Int) < x) (h : w.IsLong) :
    w.Says x := .inr ⟨hx, h⟩

theorem Number.Says.isLong {w : Number} {x : Int} (h : w.Says x) (hx : (timeoutMax : Int) < x) :
    w.IsLong := by
  rcases h with rfl | ⟨-, hlong⟩
  · exact .inr ⟨x, hx, rfl⟩
  · exact hlong

theorem Number.Says.atLeast_zero {w : Number} {x : Int} (h : w.Says x) (hx : 0 < x) :
    (w.atLeast 0).Says x := by
  rcases h with rfl | ⟨hlong, rfl | ⟨m, hm, rfl⟩⟩
  · left
    simp only [Number.atLeast, Number.finite.injEq]
    omega
  · exact .inr ⟨hlong, .inl rfl⟩
  · refine .inr ⟨hlong, .inr ⟨max m 0, ?_, rfl⟩⟩
    omega

/-- The product is as large as the number. -/
theorem thousandfold_large {n : Int} (h : 2 ^ 53 < 1000 * n) :
    (∃ m : Int, 2 ^ 53 ≤ m ∧ (p.round n).thousandfold p = .finite m) ∨
      (p.round n).thousandfold p = .infinite false := by
  by_cases hle : n ≤ 2 ^ 53
  · rw [p.round_exact n (by omega)]
    exact p.round_large (1000 * n) h
  · rcases p.round_large n (by omega) with ⟨m, hm, heq⟩ | heq
    · rw [heq]
      exact p.round_large (1000 * m) (by omega)
    · rw [heq]
      exact .inr rfl

theorem thousandfold_says {n : Int} (h : 0 < n) : ((p.round n).thousandfold p).Says (1000 * n) := by
  have hmax : timeoutMax = 2147483647 := rfl
  by_cases hle : 1000 * n ≤ 2 ^ 53
  · rw [p.round_exact n (by omega)]
    exact says_of_round p (by omega)
  · refine .of_long (by omega) ?_
    rcases thousandfold_large p (n := n) (by omega) with ⟨m, hm, heq⟩ | heq
    · exact .inr ⟨m, by omega, heq⟩
    · exact .inl heq

/-- The last instant that a date can be. -/
def maxDateMs : Nat := 8640000000000000

theorem says_of_epoch {n : Int} {now : Nat} (hnow : now ≤ maxDateMs) (h : 0 < 1000 * n - (now : Int)) :
    (((p.round n).thousandfold p).since p now).Says (1000 * n - now) := by
  have hmax : timeoutMax = 2147483647 := rfl
  have hdate : maxDateMs = 8640000000000000 := rfl
  by_cases hle : 1000 * n ≤ 2 ^ 53
  · rw [p.round_exact n (by omega), Number.thousandfold, p.round_exact (1000 * n) (by omega)]
    exact says_of_round p h
  · refine .of_long (by omega) ?_
    rcases thousandfold_large p (n := n) (by omega) with ⟨m, hm, heq⟩ | heq
    · rw [heq]
      exact (says_of_round p (n := m - now) (by omega)).isLong (by omega)
    · rw [heq]
      exact .inl rfl

end Numbers

section Honour

variable (p : RetryPlatform)

theorem le_timeout_iff {x : Int} {w : Number} {attempt : Nat} (h : 0 < x → w.Says x) :
    x ≤ timeout (w.atLeast (exponentialDelay attempt)) ↔ x ≤ timeoutMax := by
  by_cases hx : 0 < x
  · exact (h hx).timeout_iff hx attempt
  · exact iff_of_true (by omega) (by omega)

theorem dateWait_iff {value : List Char} {now attempt : Nat} :
    ((p.parseDate value).map (· - (now : Int))).getD 0 ≤
        timeout ((dateWait p value now).atLeast (exponentialDelay attempt)) ↔
      ∀ date ∈ p.parseDate value, date - (now : Int) ≤ timeoutMax := by
  unfold dateWait
  cases hdate : p.parseDate value with
  | none => exact iff_of_true (by simp) nofun
  | some date =>
    simp only [Option.map_some, Option.getD_some, Option.mem_def, Option.some.injEq, forall_eq']
    exact le_timeout_iff fun hx => (says_of_round p hx).atLeast_zero hx

/-- A text that is no number of seconds is read as a date. -/
theorem parseRetryAfter_of_date {value : List Char} (h : isIntegerText (trim value) = false)
    (now : Nat) : parseRetryAfter p value now = dateWait p value now := by
  unfold parseRetryAfter
  cases hn : readInteger value with
  | none => rfl
  | some n =>
    refine if_neg fun htext => ?_
    rw [p.numberText_read value n hn htext] at h
    cases h

theorem parseRetryAfter_iff {value : List Char} {n : Int} (hn : readInteger value = some n)
    (now attempt : Nat) :
    1000 * n ≤ timeout ((parseRetryAfter p value now).atLeast (exponentialDelay attempt)) ↔
      if (toString n).toList = trim value then 1000 * n ≤ timeoutMax
      else 1000 * n ≤ timeout ((dateWait p value now).atLeast (exponentialDelay attempt)) := by
  have hmax : timeoutMax = 2147483647 := rfl
  have hread : parseRetryAfter p value now =
      if p.numberText (p.round n) = trim value then (p.round n).thousandfold p
      else dateWait p value now := by
    unfold parseRetryAfter
    rw [hn]
  rw [hread]
  by_cases hexact : n.natAbs ≤ 2 ^ 53
  · rw [p.round_exact n hexact, p.numberText_exact n hexact, ← p.round_exact n hexact]
    split
    · exact le_timeout_iff fun hx => thousandfold_says p (by omega)
    · exact Iff.rfl
  · by_cases hneg : n < 0
    · refine iff_of_true (by omega) ?_
      split <;> omega
    · -- so many seconds are never waited for, however they are read
      refine iff_of_false ?_ ?_
      · split
        · rw [le_timeout_iff fun hx => thousandfold_says p (by omega)]
          omega
        · have := timeout_le ((dateWait p value now).atLeast (exponentialDelay attempt))
          omega
      · split
        · omega
        · have := timeout_le ((dateWait p value now).atLeast (exponentialDelay attempt))
          omega

/-- A wait honours the headers just when they are honourable. -/
theorem honours_iff (headers : RateLimitHeaders) {now : Nat} (hnow : now ≤ maxDateMs)
    (attempt : Nat) :
    demanded p headers now ≤
        timeout ((extractWaitMs p headers now).atLeast (exponentialDelay attempt)) ↔
      Honourable p attempt headers now := by
  unfold demanded extractWaitMs Honourable
  cases headers.retryAfterText with
  | some value =>
    dsimp only
    cases htext : isIntegerText (trim value) with
    | false =>
      rw [parseRetryAfter_of_date p htext]
      cases readInteger value with
      | none => exact dateWait_iff p
      | some n => exact dateWait_iff p
    | true =>
      cases hn : readInteger value with
      | some n => exact parseRetryAfter_iff p hn now attempt
      | none =>
        rw [parseRetryAfter, hn]
        exact dateWait_iff p
  | none =>
    dsimp only
    cases headers.resetText.bind readInteger with
    | none => exact iff_of_true (by simp) nofun
    | some n =>
      simp only [Option.map_some, Option.getD_some, Option.mem_def, Option.some.injEq, forall_eq']
      exact le_timeout_iff fun hx => (says_of_epoch p hnow hx).atLeast_zero hx

end Honour

section Runs

variable {B : Type*} (p : RetryPlatform) (exchanges : Nat → Exchange B)

/-- The loop ends with an answer that is no 429, or goes on after the wait. -/
theorem retryFrom_succ (left attempt : Nat) (lastWaitMs : Number) (now : Nat) :
    let call := callAt exchanges attempt now
    let wait := waitAfter p attempt call
    let rest := retryFrom p exchanges left (attempt + 1) wait (call.answeredAt + timeout wait)
    retryFrom p exchanges (left + 1) attempt lastWaitMs now =
      if (exchanges attempt).response.status ≠ 429 then
        ([call], .body (exchanges attempt).response.body)
      else (call :: rest.1, rest.2) := rfl

theorem retryFrom_first (left attempt : Nat) (lastWaitMs : Number) (now : Nat) :
    ∃ rest, (retryFrom p exchanges left attempt lastWaitMs now).1 =
      callAt exchanges attempt now :: rest := by
  cases left with
  | zero => exact ⟨[], rfl⟩
  | succ left =>
    rw [retryFrom_succ]
    split
    · exact ⟨[], rfl⟩
    · exact ⟨_, rfl⟩

theorem length_retryFrom (left attempt : Nat) (lastWaitMs : Number) (now : Nat) :
    (retryFrom p exchanges left attempt lastWaitMs now).1.length ≤ left + 1 := by
  induction left generalizing attempt lastWaitMs now with
  | zero => exact Nat.le_refl 1
  | succ left ih =>
    rw [retryFrom_succ]
    split
    · exact Nat.le_add_left 1 (left + 1)
    · exact Nat.succ_le_succ (ih _ _ _)

/-- The result is the body of the first answer that is no 429, or the error. -/
theorem retryFrom_result (left attempt : Nat) (lastWaitMs : Number) (now : Nat) :
    (∃ i ≤ left, (∀ j < i, (exchanges (attempt + j)).response.status = 429) ∧
        (exchanges (attempt + i)).response.status ≠ 429 ∧
        (retryFrom p exchanges left attempt lastWaitMs now).2 =
          .body (exchanges (attempt + i)).response.body) ∨
      (∀ i ≤ left, (exchanges (attempt + i)).response.status = 429) ∧
        ∃ ms, (retryFrom p exchanges left attempt lastWaitMs now).2 = .rateLimitError ms := by
  induction left generalizing attempt lastWaitMs now with
  | zero =>
    by_cases hstatus : (exchanges attempt).response.status = 429
    · refine .inr ⟨fun i hi => ?_, lastWaitMs, if_neg (not_not.mpr hstatus)⟩
      rw [Nat.le_zero.mp hi]
      exact hstatus
    · exact .inl ⟨0, Nat.le_refl 0, fun j hj => absurd hj (Nat.not_lt_zero j), hstatus,
        if_pos hstatus⟩
  | succ left ih =>
    rw [retryFrom_succ]
    by_cases hstatus : (exchanges attempt).response.status = 429
    · rw [if_neg (not_not.mpr hstatus)]
      have hshift : ∀ i, attempt + 1 + i = attempt + (i + 1) := fun i => by omega
      rcases ih (attempt + 1) (waitAfter p attempt (callAt exchanges attempt now))
        ((callAt exchanges attempt now).answeredAt +
          timeout (waitAfter p attempt (callAt exchanges attempt now))) with
        ⟨i, hi, hbefore, hother, hresult⟩ | ⟨hall, hthrows⟩
      · refine .inl ⟨i + 1, Nat.succ_le_succ hi, fun j hj => ?_, hshift i ▸ hother,
          hshift i ▸ hresult⟩
        cases j with
        | zero => exact hstatus
        | succ j => exact hshift j ▸ hbefore j (Nat.lt_of_succ_lt_succ hj)
      · refine .inr ⟨fun i hi => ?_, hthrows⟩
        cases i with
        | zero => exact hstatus
        | succ i => exact hshift i ▸ hall i (Nat.le_of_succ_le_succ hi)
    · rw [if_pos hstatus]
      exact .inl ⟨0, Nat.zero_le _, fun j hj => absurd hj (Nat.not_lt_zero j), hstatus, rfl⟩

theorem waits_retryFrom_iff (left attempt : Nat) (lastWaitMs : Number) (now : Nat)
    (hclock : ∀ call ∈ (retryFrom p exchanges left attempt lastWaitMs now).1,
      call.answeredAt ≤ maxDateMs) :
    Waits p (retryFrom p exchanges left attempt lastWaitMs now).1 ↔
      HonourableFrom p attempt (retryFrom p exchanges left attempt lastWaitMs now).1 := by
  induction left generalizing attempt lastWaitMs now with
  | zero => exact Iff.rfl
  | succ left ih =>
    rw [retryFrom_succ] at hclock ⊢
    by_cases hstatus : (exchanges attempt).response.status = 429
    · rw [if_neg (not_not.mpr hstatus)] at hclock ⊢
      have hnext := ih (attempt + 1) _ _ fun call hcall => hclock call (List.mem_cons_of_mem _ hcall)
      obtain ⟨rest, hrest⟩ := retryFrom_first p exchanges left (attempt + 1)
        (waitAfter p attempt (callAt exchanges attempt now))
        ((callAt exchanges attempt now).answeredAt +
          timeout (waitAfter p attempt (callAt exchanges attempt now)))
      dsimp only at hnext ⊢
      rw [hrest] at hnext ⊢
      refine and_congr ?_ hnext
      rw [← honours_iff p _ (hclock _ List.mem_cons_self)]
      dsimp only [callAt, waitAfter]
      omega
    · rw [if_pos hstatus]
      exact Iff.rfl

/-- The wrapper keeps what it promises just when no header asks for more than a timer takes, and
no number of seconds has zeros before it that make it something else. -/
theorem polite_iff (start : Nat)
    (hclock : ∀ call ∈ (withRateLimitRetry p exchanges start).1, call.answeredAt ≤ maxDateMs) :
    Polite p exchanges (withRateLimitRetry p exchanges start) ↔
      HonourableFrom p 0 (withRateLimitRetry p exchanges start).1 := by
  have hwaits := waits_retryFrom_iff p exchanges maxRetries 0 (.finite 0) start hclock
  have hresult := retryFrom_result p exchanges maxRetries 0 (.finite 0) start
  simp only [Nat.zero_add] at hresult
  refine ⟨fun h => hwaits.mp h.waits, fun h => ⟨?_, ?_, ?_, hwaits.mpr h⟩⟩
  · exact length_retryFrom p exchanges maxRetries 0 (.finite 0) start
  · intro i hi hbefore hother
    rcases hresult with ⟨k, hk, hbefore', hother', hbody⟩ | ⟨hall, -⟩
    · have hki : k = i := by
        rcases Nat.lt_trichotomy k i with hlt | heq | hlt
        · exact absurd (hbefore k hlt) hother'
        · exact heq
        · exact absurd (hbefore' i hlt) hother
      exact hki ▸ hbody
    · exact absurd (hall i hi) hother
  · rcases hresult with ⟨k, hk, -, hother, hbody⟩ | ⟨hall, hthrows⟩
    · refine iff_of_false ?_ fun hall => hother (hall k hk)
      rintro ⟨ms, hms⟩
      cases hbody.symm.trans hms
    · exact iff_of_true hthrows hall

end Runs

section Examples

theorem isIntegerText_toString (n : Int) : isIntegerText (toString n).toList = true := by
  have hdigits : ∀ m : Nat, m.repr.toList.all Char.isDigit = true := fun m =>
    List.all_eq_true.mpr fun c hc => isDigit_of_mem_repr hc
  have hrepr : (toString n).toList = n.repr.toList := rfl
  rw [hrepr, Int.repr_eq_if]
  by_cases hn : 0 ≤ n
  · obtain ⟨c, cs, hcs, hc⟩ := exists_repr_cons n.toNat
    have hminus : c ≠ '-' := by
      rintro rfl
      exact absurd hc (by decide)
    have hall := hdigits n.toNat
    rw [hcs] at hall
    rw [if_pos hn, hcs]
    simp [isIntegerText, hminus, hall]
  · have hne : (-n).toNat.repr.toList ≠ [] := by
      obtain ⟨c, cs, hcs, -⟩ := exists_repr_cons (-n).toNat
      simp [hcs]
    have hall := hdigits (-n).toNat
    rw [if_neg hn, String.toList_append, show "-".toList = ['-'] from rfl, List.singleton_append]
    simp only [isIntegerText, List.head?_cons, if_true, List.drop_succ_cons, List.drop_zero, hne,
      ne_eq, not_false_eq_true, hall, and_self, decide_true]

/-- A platform whose integers are exact and that reads no dates. -/
def samplePlatform : RetryPlatform where
  parseDate _ := none
  round n := .finite n
  numberText
    | .finite n => (toString n).toList
    | .infinite _ => "Infinity".toList
  round_exact _ _ := rfl
  round_large n h := .inl ⟨n, by omega, rfl⟩
  numberText_exact _ _ := rfl
  numberText_read value n _ h := h ▸ isIntegerText_toString n

/-- A 429 with a `Retry-After`, and then an answer. -/
def sampleExchanges (retryAfter : String) (attempt : Nat) : Exchange String where
  response := ⟨if attempt = 0 then 429 else 200, ⟨some retryAfter.toList, none, none⟩, "answer"⟩
  took := 100

theorem polite_sample :
    Polite samplePlatform (sampleExchanges "2")
        (withRateLimitRetry samplePlatform (sampleExchanges "2") 0) ↔
      HonourableFrom samplePlatform 0
        (withRateLimitRetry samplePlatform (sampleExchanges "2") 0).1 :=
  polite_iff samplePlatform (sampleExchanges "2") 0 (by decide +kernel)

/-- Thirty-five days are more than a timer takes. -/
theorem not_polite_month : ¬ ∀ (p : RetryPlatform) (exchanges : Nat → Exchange String) (start : Nat),
    Polite p exchanges (withRateLimitRetry p exchanges start) := by
  intro h
  have hwaits := (h samplePlatform (sampleExchanges "3024000") 0).waits
  have hfirst : (100 : Int) + 3024000000 ≤ 101 := hwaits.1
  exact absurd hfirst (by decide)

end Examples

end HulyGitlab.Retry
