import HulyGitlab.Auth.Credentials

/-!
# Credentials of users

The `user_credentials` collection. Its unique index allows one document for a
person, a workspace and an instance, so these three are its key.
-/

namespace HulyGitlab

structure UserCredentialKey where
  workspaceUuid : String
  hulyPersonUuid : String
  gitlabBaseUrl : String
  deriving DecidableEq

structure UserCredentialDoc where
  username : String
  value : Encrypted
  expiresAt : Option Nat
  refreshToken : Option Encrypted
  createdAt : Nat
  expired : Bool
  deriving DecidableEq

structure PutUserCredentialInput where
  username : String
  accessToken : String
  refreshToken : Option String
  expiresAt : Option Nat
  deriving DecidableEq

/-- `expiresAt` may be left out, or be null. -/
structure RotateUserCredentialInput where
  accessToken : String
  refreshToken : Option String
  expiresAt : Option (Option Nat)
  deriving DecidableEq

abbrev UserCredentials := OrderedMap UserCredentialKey UserCredentialDoc

section Storage

variable (cipher : Cipher) (encryptionKey : String) (col : UserCredentials)
  (key : UserCredentialKey)

/-- The upsert: a refresh token the input leaves out, and the mark of an expired credential, stay as
they are in the document it finds. -/
def putUserCredential (iv refreshIv : String) (now : Nat) (input : PutUserCredentialInput) :
    UserCredentials :=
  let refreshToken := input.refreshToken.map fun text =>
    cipher.encryptValue text refreshIv encryptionKey
  col.set key
    { username := input.username
      value := cipher.encryptValue input.accessToken iv encryptionKey
      expiresAt := input.expiresAt
      refreshToken := refreshToken.orElse fun _ =>
        (col.get? key).bind UserCredentialDoc.refreshToken
      createdAt := now
      expired := ((col.get? key).map UserCredentialDoc.expired).getD false }

def deleteUserCredential : UserCredentials := col.delete key

def rotateUserCredential (iv refreshIv : String) (input : RotateUserCredentialInput) :
    UserCredentials :=
  match col.get? key with
  | none => col
  | some doc =>
      let refreshToken := input.refreshToken.map fun text =>
        cipher.encryptValue text refreshIv encryptionKey
      col.set key { doc with
        value := cipher.encryptValue input.accessToken iv encryptionKey
        expiresAt := input.expiresAt.getD doc.expiresAt
        refreshToken := refreshToken.orElse fun _ => doc.refreshToken }

end Storage

end HulyGitlab
