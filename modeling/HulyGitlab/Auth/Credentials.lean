import HulyGitlab.World

/-!
# Stored credentials

The `credentials` collection with its encrypted tokens, and the resolver that
hands a decrypted credential to the rest of the program.
-/

namespace HulyGitlab

inductive CredentialKind
  | oauth
  | access_token
  | webhook_secret
  deriving DecidableEq

/-- What `encryptValue` stores of a text. -/
structure Encrypted where
  ciphertext : String
  iv : String
  tag : String
  deriving DecidableEq

/-- AES-256-GCM: the initialization vector is drawn by the caller. -/
structure Cipher where
  encryptValue : String → String → String → Encrypted
  decryptValue : Encrypted → String → Except Err String
  decrypt_encrypt : ∀ plaintext iv key,
    decryptValue (encryptValue plaintext iv key) key = .ok plaintext

/-- A cipher that hides nothing. -/
def Cipher.plain : Cipher where
  encryptValue plaintext iv _ := ⟨plaintext, iv, ""⟩
  decryptValue enc _ := .ok enc.ciphertext
  decrypt_encrypt _ _ _ := rfl

structure CredentialDoc where
  kind : CredentialKind
  value : Encrypted
  createdAt : Nat
  expiresAt : Option Nat
  refreshToken : Option Encrypted
  /-- Base URL of the GitLab instance that issued this credential. -/
  gitlabBaseUrl : Option String
  workspaceUuid : Option String
  deriving DecidableEq

structure CredentialResult where
  plaintext : String
  kind : CredentialKind
  expiresAt : Option Nat
  refreshTokenPlaintext : Option String
  deriving DecidableEq

structure PutCredentialInput where
  kind : CredentialKind
  plaintext : String
  expiresAt : Option Nat
  refreshTokenPlaintext : Option String
  gitlabBaseUrl : Option String
  workspaceUuid : Option String
  deriving DecidableEq

structure RotateCredentialInput where
  plaintext : String
  refreshTokenPlaintext : Option String
  expiresAt : Option Nat
  deriving DecidableEq

/-- The collection, by `_id`. -/
abbrev Credentials := OrderedMap String CredentialDoc

section Storage

variable (cipher : Cipher) (key : String)

/-- The document `putCredential` inserts. -/
def credentialDoc (iv refreshIv : String) (now : Nat) (input : PutCredentialInput) :
    CredentialDoc where
  kind := input.kind
  value := cipher.encryptValue input.plaintext iv key
  createdAt := now
  expiresAt := input.expiresAt
  refreshToken := input.refreshTokenPlaintext.map fun text =>
    cipher.encryptValue text refreshIv key
  gitlabBaseUrl := input.gitlabBaseUrl
  workspaceUuid := input.workspaceUuid

def putCredential (col : Credentials) (id iv refreshIv : String) (now : Nat)
    (input : PutCredentialInput) : Except Err Credentials :=
  if id ∈ col.keys then .error .duplicateKey
  else .ok (col.set id (credentialDoc cipher key iv refreshIv now input))

/-- The stored refresh token, decrypted. -/
def refreshTokenOf (doc : CredentialDoc) : Except Err (Option String) :=
  match doc.refreshToken with
  | none => .ok none
  | some enc => (cipher.decryptValue enc key).map some

/-- The result has no base URL: `CredentialResult` has no such field. -/
def getCredential (col : Credentials) (id : String) : Except Err (Option CredentialResult) :=
  match col.get? id with
  | none => .ok none
  | some doc => do
      let plaintext ← cipher.decryptValue doc.value key
      let refreshTokenPlaintext ← refreshTokenOf cipher key doc
      pure (some ⟨plaintext, doc.kind, doc.expiresAt, refreshTokenPlaintext⟩)

def deleteCredential (col : Credentials) (id : String) : Credentials := col.delete id

/-- New ciphertexts; a field the input leaves out keeps its value. -/
def rotateCredential (col : Credentials) (id iv refreshIv : String)
    (input : RotateCredentialInput) : Credentials :=
  match col.get? id with
  | none => col
  | some doc =>
      let refreshToken := (input.refreshTokenPlaintext.map fun text =>
        cipher.encryptValue text refreshIv key).orElse fun _ => doc.refreshToken
      col.set id { doc with
        value := cipher.encryptValue input.plaintext iv key
        expiresAt := input.expiresAt.orElse fun _ => doc.expiresAt
        refreshToken := refreshToken }

/-- A stored credential is read back with its token, its kind and its expiry. -/
theorem getCredential_of_putCredential {col col' : Credentials} {id iv refreshIv : String}
    {now : Nat} {input : PutCredentialInput}
    (h : putCredential cipher key col id iv refreshIv now input = .ok col') :
    getCredential cipher key col' id = .ok (some ⟨input.plaintext, input.kind, input.expiresAt,
      input.refreshTokenPlaintext⟩) := by
  unfold putCredential at h
  split_ifs at h with hid
  cases h
  have hrefresh : refreshTokenOf cipher key (credentialDoc cipher key iv refreshIv now input) =
      .ok input.refreshTokenPlaintext := by
    cases ht : input.refreshTokenPlaintext with
    | none => simp [refreshTokenOf, credentialDoc, ht]
    | some text => simp [refreshTokenOf, credentialDoc, ht, cipher.decrypt_encrypt, Except.map]
  have hvalue : cipher.decryptValue (credentialDoc cipher key iv refreshIv now input).value key =
      .ok input.plaintext := cipher.decrypt_encrypt _ _ _
  unfold getCredential
  rw [OrderedMap.get?_set_self]
  dsimp only
  rw [hvalue, hrefresh]
  rfl

/-- A rotation keeps the instance a credential was issued by. -/
theorem gitlabBaseUrl_rotateCredential (col : Credentials) (id iv refreshIv : String)
    (input : RotateCredentialInput) (id' : String) :
    ((rotateCredential cipher key col id iv refreshIv input).get? id').map
        CredentialDoc.gitlabBaseUrl = (col.get? id').map CredentialDoc.gitlabBaseUrl := by
  unfold rotateCredential
  cases hdoc : col.get? id with
  | none => rfl
  | some doc =>
    dsimp only
    by_cases h : id' = id
    · subst h
      rw [OrderedMap.get?_set_self, hdoc]
      rfl
    · rw [OrderedMap.get?_set_of_ne _ h]

end Storage

structure ResolvedCredential where
  kind : CredentialKind
  token : String
  expiresAt : Option Nat
  gitlabBaseUrl : Option String
  deriving DecidableEq

/-- `resolve` returns `gitlabBaseUrl: undefined` for every credential. -/
def CredentialResolver.resolve (cipher : Cipher) (encryptionKey : String) (col : Credentials)
    (credentialRef : String) : Except Err (Option ResolvedCredential) := do
  match ← getCredential cipher encryptionKey col credentialRef with
  | none => pure none
  | some result => pure (some ⟨result.kind, result.plaintext, result.expiresAt, none⟩)

/-- A credential that resolves is one of the collection, with no base URL. -/
theorem CredentialResolver.resolve_eq_some {cipher : Cipher} {key : String} {col : Credentials}
    {ref : String} {cred : ResolvedCredential}
    (h : CredentialResolver.resolve cipher key col ref = .ok (some cred)) :
    cred.gitlabBaseUrl = none ∧ ∃ doc, col.get? ref = some doc := by
  unfold CredentialResolver.resolve getCredential at h
  cases hdoc : col.get? ref with
  | none =>
    rw [hdoc] at h
    cases h
  | some doc =>
    rw [hdoc] at h
    refine ⟨?_, doc, rfl⟩
    cases hv : cipher.decryptValue doc.value key with
    | error e =>
      simp only [hv] at h
      cases h
    | ok plaintext =>
      cases ht : refreshTokenOf cipher key doc with
      | error e =>
        simp only [hv, ht] at h
        cases h
      | ok refresh =>
        simp only [hv, ht] at h
        cases h
        rfl

end HulyGitlab
