import HulyGitlab.Auth.Refresh

/-!
# Linking an account again

What `putUserCredential` leaves of the earlier links of a person: everything the
three writers did to the row is over after the next link, except for the mark
of an expired credential and for a refresh token the new link has none of.
-/

namespace HulyGitlab

/-- The writes to the row of one key. -/
inductive LinkOp
  | put (iv refreshIv : String) (now : Nat) (input : PutUserCredentialInput)
  | rotate (iv refreshIv : String) (input : RotateUserCredentialInput)
  | markExpired

namespace LinkOp

def isPut : LinkOp → Bool
  | .put _ _ _ _ => true
  | _ => false

/-- The refresh token the write brings. -/
def refreshToken : LinkOp → Option String
  | .put _ _ _ input => input.refreshToken
  | .rotate _ _ input => input.refreshToken
  | .markExpired => none

end LinkOp

/-- `markUserExpired`, for the row of a key. -/
def markUserExpired (col : UserCredentials) (key : UserCredentialKey) : UserCredentials :=
  match col.get? key with
  | none => col
  | some doc => col.set key { doc with expired := true }

section History

variable (cipher : Cipher) (encryptionKey : String) (key : UserCredentialKey)

def applyLinkOp (col : UserCredentials) : LinkOp → UserCredentials
  | .put iv refreshIv now input =>
      putUserCredential cipher encryptionKey col key iv refreshIv now input
  | .rotate iv refreshIv input => rotateUserCredential cipher encryptionKey col key iv refreshIv input
  | .markExpired => markUserExpired col key

/-- The collection after a history that begins without any row. -/
def afterHistory (history : List LinkOp) : UserCredentials :=
  Transition.exec (applyLinkOp cipher encryptionKey key) OrderedMap.empty history

/-- What the rest of the program sees of a row: the decrypted tokens, the expiry,
and which sweeps select it. -/
structure LinkView where
  accessToken : Except Err String
  refreshToken : Option (Except Err String)
  expiresAt : Option Nat
  selected : TokenStore → Bool

def linkView (doc : UserCredentialDoc) : LinkView where
  accessToken := cipher.decryptValue doc.value encryptionKey
  refreshToken := doc.refreshToken.map fun enc => cipher.decryptValue enc encryptionKey
  expiresAt := doc.expiresAt
  selected s := s.selectsUser doc

/-- After the last link the row looks as if it were the first one, whatever is
drawn and whenever it is made. -/
def LeavesNoTrace (history : List LinkOp) (input : PutUserCredentialInput) : Prop :=
  ∀ iv refreshIv now iv' refreshIv' now',
    ((afterHistory cipher encryptionKey key (history ++ [.put iv refreshIv now input])).get? key).map
        (linkView cipher encryptionKey) =
      ((afterHistory cipher encryptionKey key [.put iv' refreshIv' now' input]).get? key).map
        (linkView cipher encryptionKey)

end History

/-- The part of a history from its first link on; before it there is no row. -/
def linkedPart (history : List LinkOp) : List LinkOp := history.dropWhile fun op => !op.isPut

/-- Some link or refresh has stored a refresh token. -/
def StoresRefreshToken (history : List LinkOp) : Prop :=
  ∃ op ∈ linkedPart history, op.refreshToken.isSome

/-- Some refresh of a linked account has failed for good. -/
def MarksExpired (history : List LinkOp) : Prop := .markExpired ∈ linkedPart history

theorem linkedPart_concat (history : List LinkOp) (op : LinkOp) :
    linkedPart (history ++ [op]) =
      if linkedPart history = [] then (if op.isPut then [op] else [])
      else linkedPart history ++ [op] := by
  unfold linkedPart
  rw [List.dropWhile_append]
  cases hop : op.isPut <;> simp [List.isEmpty_iff, hop]

theorem linkedPart_concat_ne_nil (history : List LinkOp) (op : LinkOp) :
    linkedPart (history ++ [op]) ≠ [] ↔ linkedPart history ≠ [] ∨ op.isPut := by
  rw [linkedPart_concat]
  by_cases h : linkedPart history = []
  · cases hop : op.isPut <;> simp [h]
  · simp [h]

theorem storesRefreshToken_concat (history : List LinkOp) (op : LinkOp) :
    StoresRefreshToken (history ++ [op]) ↔ StoresRefreshToken history ∨
      (linkedPart history ≠ [] ∨ op.isPut) ∧ op.refreshToken.isSome := by
  unfold StoresRefreshToken
  rw [linkedPart_concat]
  by_cases h : linkedPart history = []
  · cases hop : op.isPut <;> simp [h]
  · simp only [h, if_false, List.mem_append, List.mem_singleton, or_and_right, exists_or,
      exists_eq_left, ne_eq, not_false_eq_true, true_or, true_and]

theorem marksExpired_concat (history : List LinkOp) (op : LinkOp) :
    MarksExpired (history ++ [op]) ↔ MarksExpired history ∨
      linkedPart history ≠ [] ∧ op = .markExpired := by
  unfold MarksExpired
  rw [linkedPart_concat]
  by_cases h : linkedPart history = []
  · cases op <;> simp [h, LinkOp.isPut]
  · simp [h, eq_comm]

section Row

variable (cipher : Cipher) (encryptionKey : String) (key : UserCredentialKey)

/-- The row after a write, from the row before it. -/
def rowAfter (row : Option UserCredentialDoc) : LinkOp → Option UserCredentialDoc
  | .put iv refreshIv now input =>
      some { username := input.username
             value := cipher.encryptValue input.accessToken iv encryptionKey
             expiresAt := input.expiresAt
             refreshToken := (input.refreshToken.map fun text =>
                 cipher.encryptValue text refreshIv encryptionKey).orElse fun _ =>
               row.bind UserCredentialDoc.refreshToken
             createdAt := now
             expired := (row.map UserCredentialDoc.expired).getD false }
  | .rotate iv refreshIv input => row.map fun doc =>
      { doc with
        value := cipher.encryptValue input.accessToken iv encryptionKey
        expiresAt := input.expiresAt.getD doc.expiresAt
        refreshToken := (input.refreshToken.map fun text =>
          cipher.encryptValue text refreshIv encryptionKey).orElse fun _ => doc.refreshToken }
  | .markExpired => row.map fun doc => { doc with expired := true }

theorem get?_applyLinkOp (col : UserCredentials) (op : LinkOp) :
    (applyLinkOp cipher encryptionKey key col op).get? key =
      rowAfter cipher encryptionKey (col.get? key) op := by
  cases op with
  | put iv refreshIv now input => exact OrderedMap.get?_set_self _ _ _
  | rotate iv refreshIv input =>
      unfold applyLinkOp rotateUserCredential rowAfter
      cases hrow : col.get? key with
      | none => exact hrow
      | some doc => exact OrderedMap.get?_set_self _ _ _
  | markExpired =>
      unfold applyLinkOp markUserExpired rowAfter
      cases hrow : col.get? key with
      | none => exact hrow
      | some doc => exact OrderedMap.get?_set_self _ _ _

variable {cipher encryptionKey key}

/-- What a row has kept of its history. -/
structure Remembers (history : List LinkOp) (row : Option UserCredentialDoc) : Prop where
  isSome_iff : row.isSome ↔ linkedPart history ≠ []
  refreshToken_iff : (row.bind UserCredentialDoc.refreshToken).isSome ↔ StoresRefreshToken history
  expired_iff : (row.map UserCredentialDoc.expired).getD false = true ↔ MarksExpired history

theorem Remembers.step {history : List LinkOp} {row : Option UserCredentialDoc}
    (h : Remembers history row) (op : LinkOp) :
    Remembers (history ++ [op]) (rowAfter cipher encryptionKey row op) := by
  refine ⟨?_, ?_, ?_⟩
  · rw [linkedPart_concat_ne_nil, ← h.isSome_iff]
    cases op <;> simp [rowAfter, LinkOp.isPut]
  · rw [storesRefreshToken_concat, ← h.isSome_iff, ← h.refreshToken_iff]
    cases op with
    | put iv refreshIv now input =>
        cases htoken : input.refreshToken <;> simp [rowAfter, LinkOp.isPut, LinkOp.refreshToken, htoken]
    | rotate iv refreshIv input =>
        cases row with
        | none => simp [rowAfter, LinkOp.isPut]
        | some doc =>
            cases htoken : input.refreshToken <;> simp [rowAfter, LinkOp.refreshToken, htoken]
    | markExpired => cases row <;> simp [rowAfter, LinkOp.refreshToken]
  · rw [marksExpired_concat, ← h.isSome_iff, ← h.expired_iff]
    cases op with
    | put iv refreshIv now input => simp [rowAfter]
    | rotate iv refreshIv input => cases row <;> simp [rowAfter]
    | markExpired => cases row <;> simp [rowAfter]

theorem remembers_afterHistory (history : List LinkOp) :
    Remembers history ((afterHistory cipher encryptionKey key history).get? key) := by
  induction history using List.reverseRecOn with
  | nil =>
      refine ⟨?_, ?_, ?_⟩
      · simp [afterHistory, linkedPart]
      · simp [afterHistory, StoresRefreshToken, linkedPart]
      · simp [afterHistory, MarksExpired, linkedPart]
  | append_singleton history op ih =>
      have hafter : (afterHistory cipher encryptionKey key (history ++ [op])).get? key =
          rowAfter cipher encryptionKey
            ((afterHistory cipher encryptionKey key history).get? key) op := by
        rw [afterHistory, Transition.exec_concat, get?_applyLinkOp]
        rfl
      rw [hafter]
      exact ih.step op

/-- The sweeps that select a row are known from its expiry, where it has one, and
its mark. -/
theorem selected_eq_iff (expiresAt : Option Nat) (expired expired' : Bool) :
    (fun s : TokenStore => TokenStore.dueBefore (s.now + fiveMinutesMs) expiresAt && !expired) =
        (fun s => TokenStore.dueBefore (s.now + fiveMinutesMs) expiresAt && !expired') ↔
      expiresAt = none ∨ expired = expired' := by
  cases expiresAt with
  | none => simp [TokenStore.dueBefore]
  | some e =>
      simp only [reduceCtorEq, false_or]
      constructor
      · intro h
        have hdue : ∀ ms, 0 < ms → TokenStore.dueBefore (e + ms) (some e) = true := by
          intro ms hms
          simp [TokenStore.dueBefore, hms]
        have hat := congrFun h ⟨e, 0, 0, OrderedMap.empty, [], OrderedMap.empty⟩
        simp only [hdue fiveMinutesMs (by decide), Bool.true_and] at hat
        exact Bool.not_inj hat
      · intro h
        rw [h]

theorem linkView_rowAfter_put (row : Option UserCredentialDoc) (iv refreshIv : String) (now : Nat)
    (input : PutUserCredentialInput) :
    (rowAfter cipher encryptionKey row (.put iv refreshIv now input)).map
        (linkView cipher encryptionKey) =
      some { accessToken := .ok input.accessToken
             refreshToken := (input.refreshToken.map Except.ok).orElse fun _ =>
               (row.bind UserCredentialDoc.refreshToken).map fun enc =>
                 cipher.decryptValue enc encryptionKey
             expiresAt := input.expiresAt
             selected := fun s =>
               TokenStore.dueBefore (s.now + fiveMinutesMs) input.expiresAt &&
                 !(row.map UserCredentialDoc.expired).getD false } := by
  simp only [rowAfter, Option.map_some, linkView, cipher.decrypt_encrypt, Option.some.injEq,
    LinkView.mk.injEq, true_and]
  refine ⟨?_, rfl⟩
  cases input.refreshToken with
  | none => rfl
  | some text => simp [cipher.decrypt_encrypt]

/-- The last link leaves no trace of the earlier ones exactly when it brings a
refresh token or none was stored, and when its tokens never expire or no earlier
one was marked. -/
theorem leavesNoTrace_iff (history : List LinkOp) (input : PutUserCredentialInput) :
    LeavesNoTrace cipher encryptionKey key history input ↔
      (input.refreshToken.isSome ∨ ¬ StoresRefreshToken history) ∧
        (input.expiresAt = none ∨ ¬ MarksExpired history) := by
  have hrow : Remembers history ((afterHistory cipher encryptionKey key history).get? key) :=
    remembers_afterHistory history
  have hlast : ∀ iv refreshIv now,
      (afterHistory cipher encryptionKey key (history ++ [.put iv refreshIv now input])).get? key =
        rowAfter cipher encryptionKey ((afterHistory cipher encryptionKey key history).get? key)
          (.put iv refreshIv now input) := by
    intro iv refreshIv now
    rw [afterHistory, Transition.exec_concat, get?_applyLinkOp]
    rfl
  have hfirst : ∀ iv refreshIv now,
      (afterHistory cipher encryptionKey key [.put iv refreshIv now input]).get? key =
        rowAfter cipher encryptionKey none (.put iv refreshIv now input) := by
    intro iv refreshIv now
    rw [afterHistory, Transition.exec_cons, Transition.exec_nil, get?_applyLinkOp]
    rfl
  unfold LeavesNoTrace
  simp only [hlast, hfirst, linkView_rowAfter_put, Option.some.injEq, LinkView.mk.injEq, true_and,
    forall_const]
  refine and_congr ?_ ?_
  · rw [← hrow.refreshToken_iff]
    cases input.refreshToken <;> simp
  · rw [← hrow.expired_iff, selected_eq_iff]
    simp

/-- A row that was marked is not refreshed after the account is linked again. -/
theorem not_leavesNoTrace_marked :
    ¬ ∀ (cipher : Cipher) (encryptionKey : String) (key : UserCredentialKey),
      LeavesNoTrace cipher encryptionKey key
        [.put "iv1" "iv2" 0 ⟨"alice", "token", some "refresh", some 7200000⟩, .markExpired]
        ⟨"alice", "token2", some "refresh2", some 90000000⟩ := by
  intro h
  have htrace := h ⟨fun text iv key => ⟨text, iv, key⟩, fun enc _ => .ok enc.ciphertext,
    fun _ _ _ => rfl⟩ "key" ⟨"ws", "person", "https://gitlab.com"⟩ "iv3" "iv4" 0 "iv5" "iv6" 0
  have hselected := congrArg (Option.map fun view => view.selected
    ⟨90000000, 0, 0, OrderedMap.empty, [], OrderedMap.empty⟩) htrace
  exact absurd hselected (by decide)

end Row

end HulyGitlab
