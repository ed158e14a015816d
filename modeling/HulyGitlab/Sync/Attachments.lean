import HulyGitlab.Lib.Effect
import HulyGitlab.Lib.Transition
import HulyGitlab.Sync.AttachmentLinks
import HulyGitlab.Sync.BindingLoader

/-!
# The attachment mirror

The copies of uploads between GitLab and Huly, deduplicated by content hash
in one collection that all bindings share. The state records where each
object was uploaded, who wrote each row, and what each call returned.
-/

namespace HulyGitlab

abbrev Bytes := List UInt8

structure AttachmentMirrorDoc where
  contentHash : String
  origin : AttachmentOrigin
  targetUrl : String
  sourceUrl : String
  deriving DecidableEq

/-- Where an object is uploaded: the store of a workspace, or a project of an instance. -/
inductive Destination
  | huly (workspaceUuid : String)
  | gitlab (baseUrl : String) (projectId : Int)
  deriving DecidableEq

structure MirrorState where
  /-- The collection, by the key of its unique index. -/
  mirror : OrderedMap (String × AttachmentOrigin) AttachmentMirrorDoc
  /-- Each uploaded object with the URL the upload returned. -/
  uploads : List (Destination × String)
  /-- The URLs handed to `downloadUpload`. -/
  downloads : List String
  /-- The destination of the call that wrote a row. -/
  writers : OrderedMap (String × AttachmentOrigin) Destination
  deriving DecidableEq

namespace MirrorState

def empty : MirrorState := ⟨.empty, [], [], .empty⟩

end MirrorState

/-- The clients of a binding. -/
structure MirrorDeps where
  workspaceUuid : String
  gitlabClient : GitLabClient
  deriving DecidableEq

/-- The services behind the clients. An upload gets a URL that no upload had before. -/
structure MirrorServices where
  /-- The bytes of a GitLab upload; nothing when it is not found. -/
  downloadUpload : MirrorState → GitLabClient → String → Except Err (Option Bytes)
  uploadFile : MirrorState → GitLabClient → Int → String → Bytes → Except Err String
  /-- The bytes of an attachment document of a workspace. -/
  findBlob : MirrorState → String → String → Except Err Bytes
  /-- The id of the document created for an attachment. -/
  createBlob : MirrorState → String → String → Bytes → Except Err Ref
  sha256 : Bytes → String
  decodeURIComponent : String → Except Err String
  /-- The error an operation on the collection ends with, if it fails. -/
  fault : MirrorState → Option Err
  uploadFile_fresh : ∀ s client projectId filename bytes url,
    uploadFile s client projectId filename bytes = .ok url → url ∉ s.uploads.map Prod.snd
  createBlob_fresh : ∀ s workspaceUuid filename bytes ref,
    createBlob s workspaceUuid filename bytes = .ok ref →
      "attachments://" ++ ref ∉ s.uploads.map Prod.snd

theorem not_mem_of_longer {texts : List String} {s : String}
    (h : (texts.map String.length).sum < s.length) : s ∉ texts := by
  intro hmem
  have hle : s.length ≤ (texts.map String.length).sum :=
    List.le_sum_of_mem (List.mem_map_of_mem hmem)
  omega

theorem append_longerText_fresh (start : String) (texts : List String) :
    start ++ longerText texts ∉ texts := by
  apply not_mem_of_longer
  rw [String.length_append]
  simp [longerText]
  omega

/-- Services that find the same file everywhere and accept every upload. -/
def MirrorServices.quiet : MirrorServices where
  downloadUpload _ _ _ := .ok (some [0])
  uploadFile s _ _ _ _ := .ok (longerText (s.uploads.map Prod.snd))
  findBlob _ _ _ := .ok [0]
  createBlob s _ _ _ := .ok (longerText (s.uploads.map Prod.snd))
  sha256 bytes := String.ofList (bytes.map fun byte => Char.ofNat byte.toNat)
  decodeURIComponent url := .ok url
  fault _ := none
  uploadFile_fresh s _ _ _ _ url h := by
    cases h
    exact longerText_fresh _
  createBlob_fresh s _ _ _ ref h := by
    cases h
    exact append_longerText_fresh _ _

namespace Attachments

open Effect

abbrev Mirror := Effect Err MirrorState

variable (services : MirrorServices)

/-- A call on the collection, which may fail before it does anything. -/
def reach : Mirror Unit := Effect.step fun s =>
  match services.fault s with
  | some e => (.error e, s)
  | none => (.ok (), s)

def findMirroredAttachment (contentHash : String) (origin : AttachmentOrigin) :
    Mirror (Option AttachmentMirrorDoc) := do
  reach services
  Effect.gets fun s => s.mirror.get? (contentHash, origin)

/-- A row that is there already stays: the duplicate key is ignored. -/
def insertMirroredAttachment (writer : Destination) (doc : AttachmentMirrorDoc) :
    Mirror Unit := do
  reach services
  Effect.modify fun s =>
    let key := (doc.contentHash, doc.origin)
    if key ∈ s.mirror.keys then s
    else { s with mirror := s.mirror.set key doc, writers := s.writers.set key writer }

def downloadUpload (client : GitLabClient) (url : String) : Mirror (Option Bytes) :=
  Effect.step fun s =>
    (services.downloadUpload s client url, { s with downloads := s.downloads ++ [url] })

def uploadFile (client : GitLabClient) (projectId : Int) (filename : String) (bytes : Bytes) :
    Mirror String := Effect.step fun s =>
  match services.uploadFile s client projectId filename bytes with
  | .ok url => (.ok url, { s with uploads := s.uploads ++ [(.gitlab client.baseUrl projectId, url)] })
  | .error e => (.error e, s)

/-- What a filename must not be. -/
def validateFilename (filename : String) : Except Err Unit :=
  if filename.length = 0 then .error (.service "attachment: filename must not be empty")
  else if '/' ∈ filename.toList ∨ '\\' ∈ filename.toList then
    .error (.service ("attachment: filename must not contain path separators: " ++ filename))
  else if Char.ofNat 0 ∈ filename.toList then
    .error (.service ("attachment: filename must not contain null bytes: " ++ filename))
  else .ok ()

/-- `upload` of the store of a workspace. -/
def hulyUpload (workspaceUuid filename : String) (bytes : Bytes) : Mirror String := do
  Effect.ofExcept (validateFilename filename)
  if MAX_ATTACHMENT_BYTES < bytes.length then
    Effect.throw (.service ("attachment: file exceeds byte limit: " ++ filename))
  else
    Effect.step fun s =>
      match services.createBlob s workspaceUuid filename bytes with
      | .ok ref =>
          (.ok ("attachments://" ++ ref),
            { s with uploads := s.uploads ++ [(.huly workspaceUuid, "attachments://" ++ ref)] })
      | .error e => (.error e, s)

/-- `download` of the store of a workspace. -/
def hulyDownload (workspaceUuid refOrUrl : String) : Mirror Bytes := Effect.step fun s =>
  let ref := if AttachmentLinks.isHulyAttachment refOrUrl.toList then
      String.ofList (refOrUrl.toList.drop 14) else refOrUrl
  (services.findBlob s workspaceUuid ref, s)

/-- The end of both mirrors: the row of the content, or an upload and a new row. -/
def lookupOrUpload (origin : AttachmentOrigin) (dest : Destination) (upload : Mirror String)
    (sourceUrl : String) (bytes : Bytes) : Mirror (Option String) := do
  if MAX_ATTACHMENT_BYTES < bytes.length then
    pure none
  else
    let contentHash := services.sha256 bytes
    let existing ← findMirroredAttachment services contentHash origin
    match existing with
    | some row => pure (some row.targetUrl)
    | none =>
        let targetUrl ← upload
        insertMirroredAttachment services dest ⟨contentHash, origin, targetUrl, sourceUrl⟩
        pure (some targetUrl)

/-- Any error ends in `null`, the link-through. -/
def mirrorGitlabUploadToHuly (deps : MirrorDeps) (sourceUrl filename : String) :
    Mirror (Option String) :=
  Effect.attempt (do
    let bytes ← downloadUpload services deps.gitlabClient sourceUrl
    match bytes with
    | none => pure none
    | some bytes =>
        lookupOrUpload services .gitlab (.huly deps.workspaceUuid)
          (hulyUpload services deps.workspaceUuid filename bytes) sourceUrl bytes)
    fun _ => pure none

def mirrorHulyAttachmentToGitlab (deps : MirrorDeps) (sourceUrl filename : String)
    (projectId : Int) : Mirror (Option String) :=
  Effect.attempt (do
    let bytes ← hulyDownload services deps.workspaceUuid sourceUrl
    lookupOrUpload services .huly (.gitlab deps.gitlabClient.baseUrl projectId)
      (uploadFile services deps.gitlabClient projectId filename bytes) sourceUrl bytes)
    fun _ => pure none

/-- The mapping of a link that was mirrored. -/
def mappingOf (sourceUrl : String) (targetUrl : Option String) : List AttachmentMapping :=
  targetUrl.toList.map fun url => ⟨sourceUrl, url⟩

def mirrorBodyGitlabToHuly (deps : MirrorDeps) (body gitlabBaseUrl projectPath : String) :
    Mirror String := do
  let links := AttachmentLinks.gitlabLinks services.decodeURIComponent body gitlabBaseUrl
  let mappings ← Effect.mapEach (fun link : AttachmentLink => do
    let absoluteUrl := AttachmentLinks.resolveGitLabUploadUrl link.sourceUrl gitlabBaseUrl
      projectPath
    let targetUrl ← mirrorGitlabUploadToHuly services deps absoluteUrl link.filename
    pure (mappingOf link.sourceUrl targetUrl)) links
  pure (AttachmentLinks.rewriteAttachmentLinks body mappings.flatten)

def mirrorBodyHulyToGitlab (deps : MirrorDeps) (body : String) (projectId : Int) :
    Mirror String := do
  let links := (AttachmentLinks.extractAttachmentLinks services.decodeURIComponent body none).filter
    fun link => link.origin = .huly
  let mappings ← Effect.mapEach (fun link : AttachmentLink => do
    let targetUrl ← mirrorHulyAttachmentToGitlab services deps link.sourceUrl link.filename
      projectId
    pure (mappingOf link.sourceUrl targetUrl)) links
  pure (AttachmentLinks.rewriteAttachmentLinks body mappings.flatten)

section Collection

variable {services}

theorem reach_run {s : MirrorState} (h : services.fault s = none) :
    (reach services).run s = (.ok (), s) := by
  unfold reach
  rw [step_run, h]

theorem reach_run_of_fault {s : MirrorState} {e : Err} (h : services.fault s = some e) :
    (reach services).run s = (.error e, s) := by
  unfold reach
  rw [step_run, h]

theorem findMirroredAttachment_run {s : MirrorState} (h : services.fault s = none)
    (contentHash : String) (origin : AttachmentOrigin) :
    (findMirroredAttachment services contentHash origin).run s =
      (.ok (s.mirror.get? (contentHash, origin)), s) := by
  unfold findMirroredAttachment
  rw [bind_of_ok (reach_run h), gets_run]

theorem findMirroredAttachment_run_of_fault {s : MirrorState} {e : Err}
    (h : services.fault s = some e) (contentHash : String) (origin : AttachmentOrigin) :
    (findMirroredAttachment services contentHash origin).run s = (.error e, s) := by
  unfold findMirroredAttachment
  rw [bind_of_error (reach_run_of_fault h)]

theorem insertMirroredAttachment_run {s : MirrorState} (h : services.fault s = none)
    {doc : AttachmentMirrorDoc} (hkey : (doc.contentHash, doc.origin) ∉ s.mirror.keys)
    (writer : Destination) :
    (insertMirroredAttachment services writer doc).run s =
      (.ok (), { s with
        mirror := s.mirror.set (doc.contentHash, doc.origin) doc
        writers := s.writers.set (doc.contentHash, doc.origin) writer }) := by
  unfold insertMirroredAttachment
  rw [bind_of_ok (reach_run h), modify_run]
  dsimp only
  rw [if_neg hkey]

theorem insertMirroredAttachment_run_of_fault {s : MirrorState} {e : Err}
    (h : services.fault s = some e) (writer : Destination) (doc : AttachmentMirrorDoc) :
    (insertMirroredAttachment services writer doc).run s = (.error e, s) := by
  unfold insertMirroredAttachment
  rw [bind_of_error (reach_run_of_fault h)]

end Collection

section Downloads

/-- The downloads of a computation are a list of their own. -/
def Downloads (urls : List String) (s s' : MirrorState) : Prop := s'.downloads = s.downloads ++ urls

theorem reach_downloads (s : MirrorState) : ((reach services).run s).2 = s := by
  unfold reach
  rw [step_run]
  cases services.fault s <;> rfl

/-- What does not touch the log of downloads. -/
abbrev Quiet {A : Type} (m : Mirror A) : Prop := Within (Downloads []) m

theorem Downloads.nil_refl (s : MirrorState) : Downloads [] s s := (List.append_nil _).symm

theorem Downloads.trans {xs ys : List String} {a b c : MirrorState} (h : Downloads xs a b)
    (h' : Downloads ys b c) : Downloads (xs ++ ys) a c := by
  unfold Downloads at *
  rw [h', h, List.append_assoc]

theorem Quiet.bind {A B : Type} {m : Mirror A} {f : A → Mirror B} (hm : Quiet m)
    (hf : ∀ a, Quiet (f a)) : Quiet (m >>= f) := by
  apply Within.bind _ hm hf
  intro a b c hab hbc
  exact Downloads.trans hab hbc

theorem reach_quiet : Quiet (reach services) := by
  intro s
  rw [reach_downloads]
  exact Downloads.nil_refl s

theorem findMirroredAttachment_quiet (contentHash : String) (origin : AttachmentOrigin) :
    Quiet (findMirroredAttachment services contentHash origin) :=
  Quiet.bind (reach_quiet services) fun _ => Within.gets Downloads.nil_refl _

theorem insertMirroredAttachment_quiet (writer : Destination) (doc : AttachmentMirrorDoc) :
    Quiet (insertMirroredAttachment services writer doc) := by
  apply Quiet.bind (reach_quiet services)
  intro _
  apply Within.modify
  intro s
  dsimp only
  split_ifs
  · exact Downloads.nil_refl s
  · exact Downloads.nil_refl _

theorem hulyUpload_quiet (workspaceUuid filename : String) (bytes : Bytes) :
    Quiet (hulyUpload services workspaceUuid filename bytes) := by
  apply Quiet.bind (Within.ofExcept Downloads.nil_refl _)
  intro _
  apply Within.ite
  · intro _
    exact Within.throw Downloads.nil_refl _
  · intro _ s
    rw [step_run]
    cases services.createBlob s workspaceUuid filename bytes with
    | ok ref => exact Downloads.nil_refl _
    | error e => exact Downloads.nil_refl s

theorem lookupOrUpload_quiet (origin : AttachmentOrigin) (dest : Destination)
    {upload : Mirror String} (hup : Quiet upload) (sourceUrl : String) (bytes : Bytes) :
    Quiet (lookupOrUpload services origin dest upload sourceUrl bytes) := by
  apply Within.ite
  · intro _
    exact Within.pure Downloads.nil_refl _
  · intro _
    apply Quiet.bind (findMirroredAttachment_quiet services _ _)
    intro existing
    cases existing with
    | some row => exact Within.pure Downloads.nil_refl _
    | none =>
      apply Quiet.bind hup
      intro targetUrl
      apply Quiet.bind (insertMirroredAttachment_quiet services _ _)
      intro _
      exact Within.pure Downloads.nil_refl _

/-- A mirrored upload is downloaded once, whatever happens afterwards. -/
theorem mirrorGitlabUploadToHuly_downloads (deps : MirrorDeps) (sourceUrl filename : String)
    (s : MirrorState) :
    (∃ url, ((mirrorGitlabUploadToHuly services deps sourceUrl filename).run s).1 = .ok url) ∧
      Downloads [sourceUrl] s
        ((mirrorGitlabUploadToHuly services deps sourceUrl filename).run s).2 := by
  have hfirst : Downloads [sourceUrl] s
      ((downloadUpload services deps.gitlabClient sourceUrl).run s).2 := rfl
  have hbody : Downloads [sourceUrl] s ((downloadUpload services deps.gitlabClient sourceUrl >>=
      fun bytes => match bytes with
        | none => pure none
        | some bytes => lookupOrUpload services .gitlab (.huly deps.workspaceUuid)
            (hulyUpload services deps.workspaceUuid filename bytes) sourceUrl bytes).run s).2 := by
    rw [bind_run]
    cases hrun : (downloadUpload services deps.gitlabClient sourceUrl).run s with
    | mk r s₁ =>
      rw [hrun] at hfirst
      cases r with
      | error e => exact hfirst
      | ok bytes =>
        cases bytes with
        | none => exact hfirst
        | some bytes =>
          have hrest := lookupOrUpload_quiet services .gitlab (.huly deps.workspaceUuid)
            (hulyUpload_quiet services deps.workspaceUuid filename bytes) sourceUrl bytes s₁
          exact Downloads.trans hfirst hrest
  unfold mirrorGitlabUploadToHuly
  rw [attempt_run]
  cases hrun : (downloadUpload services deps.gitlabClient sourceUrl >>= fun bytes =>
      match bytes with
      | none => pure none
      | some bytes => lookupOrUpload services .gitlab (.huly deps.workspaceUuid)
          (hulyUpload services deps.workspaceUuid filename bytes) sourceUrl bytes).run s with
  | mk r s₁ =>
    rw [hrun] at hbody
    cases r with
    | ok url => exact ⟨⟨url, rfl⟩, hbody⟩
    | error e => exact ⟨⟨none, rfl⟩, hbody⟩

/-- A loop of bodies that return and download one URL each downloads all of them, in order. -/
theorem mapEach_downloads {A B : Type} {body : A → Mirror B} {url : A → String}
    (h : ∀ a s, (∃ b, ((body a).run s).1 = .ok b) ∧ Downloads [url a] s ((body a).run s).2)
    (xs : List A) (s : MirrorState) :
    (∃ bs, ((Effect.mapEach body xs).run s).1 = .ok bs) ∧
      Downloads (xs.map url) s ((Effect.mapEach body xs).run s).2 := by
  induction xs generalizing s with
  | nil => exact ⟨⟨[], rfl⟩, Downloads.nil_refl s⟩
  | cons a rest ih =>
    obtain ⟨⟨b, hb⟩, hdown⟩ := h a s
    have hrun : (body a).run s = (.ok b, ((body a).run s).2) := Prod.ext hb rfl
    obtain ⟨⟨bs, hbs⟩, hrest⟩ := ih ((body a).run s).2
    have hrun' : (Effect.mapEach body rest).run ((body a).run s).2 =
        (.ok bs, ((Effect.mapEach body rest).run ((body a).run s).2).2) := Prod.ext hbs rfl
    rw [mapEach_cons, bind_of_ok hrun, bind_of_ok hrun', pure_run]
    exact ⟨⟨b :: bs, rfl⟩, Downloads.trans hdown hrest⟩

/-- The downloads for a body are its GitLab links, made absolute. -/
theorem mirrorBodyGitlabToHuly_downloads (deps : MirrorDeps)
    (body gitlabBaseUrl projectPath : String) (s : MirrorState) :
    Downloads ((AttachmentLinks.gitlabLinks services.decodeURIComponent body gitlabBaseUrl).map
        fun link => AttachmentLinks.resolveGitLabUploadUrl link.sourceUrl gitlabBaseUrl projectPath)
      s ((mirrorBodyGitlabToHuly services deps body gitlabBaseUrl projectPath).run s).2 := by
  have hlink : ∀ (link : AttachmentLink) (s : MirrorState),
      (∃ mapping, ((mirrorGitlabUploadToHuly services deps (AttachmentLinks.resolveGitLabUploadUrl
        link.sourceUrl gitlabBaseUrl projectPath) link.filename >>= fun targetUrl =>
          pure (mappingOf link.sourceUrl targetUrl)).run s).1 = .ok mapping) ∧
      Downloads [AttachmentLinks.resolveGitLabUploadUrl link.sourceUrl gitlabBaseUrl projectPath] s
        ((mirrorGitlabUploadToHuly services deps (AttachmentLinks.resolveGitLabUploadUrl
          link.sourceUrl gitlabBaseUrl projectPath) link.filename >>= fun targetUrl =>
            pure (mappingOf link.sourceUrl targetUrl)).run s).2 := by
    intro link s
    obtain ⟨⟨url, hurl⟩, hdown⟩ := mirrorGitlabUploadToHuly_downloads services deps
      (AttachmentLinks.resolveGitLabUploadUrl link.sourceUrl gitlabBaseUrl projectPath)
      link.filename s
    rw [bind_of_ok (Prod.ext hurl rfl)]
    exact ⟨⟨_, rfl⟩, hdown⟩
  obtain ⟨⟨mappings, hmappings⟩, hdown⟩ := mapEach_downloads hlink
    (AttachmentLinks.gitlabLinks services.decodeURIComponent body gitlabBaseUrl) s
  unfold mirrorBodyGitlabToHuly
  rw [bind_of_ok (Prod.ext hmappings rfl)]
  exact hdown

/-- The token goes to the bound instance exactly when every upload link of the body stays on it. -/
theorem contained_downloads_iff (parseHost : String → Option String) (deps : MirrorDeps)
    (body gitlabBaseUrl projectPath : String) (s : MirrorState) :
    (∀ url ∈ ((mirrorBodyGitlabToHuly services deps body gitlabBaseUrl projectPath).run
        s).2.downloads.drop s.downloads.length,
        AttachmentLinks.Contained parseHost gitlabBaseUrl url) ↔
      ∀ link ∈ AttachmentLinks.gitlabLinks services.decodeURIComponent body gitlabBaseUrl,
        AttachmentLinks.Stays parseHost gitlabBaseUrl
          (AttachmentLinks.continuation gitlabBaseUrl projectPath link.sourceUrl) := by
  have hdown := mirrorBodyGitlabToHuly_downloads services deps body gitlabBaseUrl projectPath s
  unfold Downloads at hdown
  rw [hdown, List.drop_left, List.forall_mem_map]
  apply forall_congr'
  intro link
  apply forall_congr'
  intro hlink
  exact AttachmentLinks.contained_iff parseHost projectPath hlink

/-- A host that only begins like the bound one gets the token. -/
theorem not_contained_of_longer_host :
    let body := "[log](https://gitlab.com.evil.example/uploads/ab12/log.txt)"
    let s := ((mirrorBodyGitlabToHuly .quiet ⟨"ws", ⟨"https://gitlab.com", "token"⟩⟩ body
      "https://gitlab.com" "group/project").run .empty).2
    s.downloads = ["https://gitlab.com.evil.example/uploads/ab12/log.txt"] ∧
      ¬ ∀ url ∈ s.downloads, AttachmentLinks.Contained some "https://gitlab.com" url := by
  intro body s
  have hdown : s.downloads = ["https://gitlab.com.evil.example/uploads/ab12/log.txt"] := by
    decide +kernel
  refine ⟨hdown, fun h => ?_⟩
  obtain ⟨o, hbase, hurl⟩ := h _ (by rw [hdown]; exact List.mem_singleton_self _)
  have hne : HttpUrl.origin some "https://gitlab.com".toList ≠
      HttpUrl.origin some "https://gitlab.com.evil.example/uploads/ab12/log.txt".toList := by
    decide +kernel
  exact hne (hbase.trans hurl.symm)

end Downloads

end Attachments

end HulyGitlab
