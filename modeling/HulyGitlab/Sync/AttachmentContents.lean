import HulyGitlab.Sync.AttachmentTenants
import HulyGitlab.Sync.LinkRewriting

/-!
# Contents behind mirrored links

The mirrors of whole bodies, over any sequence of mirror calls by any
bindings. A link of the new body is the old one, or its URL is what an upload
of a file with the hash of the downloaded one got.
-/

namespace HulyGitlab

/-- A body that one of the two mirrors is asked to process. -/
inductive BodyMirror
  | gitlabToHuly (deps : MirrorDeps) (body gitlabBaseUrl projectPath : String)
  | hulyToGitlab (deps : MirrorDeps) (body : String) (projectId : Int)

namespace BodyMirror

def body : BodyMirror → String
  | .gitlabToHuly _ body _ _ => body
  | .hulyToGitlab _ body _ => body

/-- The links that are mirrored. -/
def links (decodeURIComponent : String → Except Err String) : BodyMirror → List AttachmentLink
  | .gitlabToHuly _ body gitlabBaseUrl _ =>
      AttachmentLinks.gitlabLinks decodeURIComponent body gitlabBaseUrl
  | .hulyToGitlab _ body _ =>
      (AttachmentLinks.extractAttachmentLinks decodeURIComponent body none).filter
        fun link => link.origin = .huly

/-- The mirror call for a link. -/
def call (b : BodyMirror) (link : AttachmentLink) : MirrorCall :=
  match b with
  | .gitlabToHuly deps _ gitlabBaseUrl projectPath =>
      .gitlabToHuly deps
        (AttachmentLinks.resolveGitLabUploadUrl link.sourceUrl gitlabBaseUrl projectPath)
        link.filename
  | .hulyToGitlab deps _ projectId =>
      .hulyToGitlab deps link.sourceUrl link.filename projectId

end BodyMirror

namespace Attachments

open Effect AttachmentLinks Scanning

variable (services : MirrorServices)

def runBody : BodyMirror → Mirror String
  | .gitlabToHuly deps body gitlabBaseUrl projectPath =>
      mirrorBodyGitlabToHuly services deps body gitlabBaseUrl projectPath
  | .hulyToGitlab deps body projectId => mirrorBodyHulyToGitlab services deps body projectId

/-- The calls a body makes, in order. -/
def callsOf (b : BodyMirror) : List MirrorCall :=
  (b.links services.decodeURIComponent).map b.call

def next (s : MirrorState) (call : MirrorCall) : MirrorState := ((runCall services call).run s).2

/-- The URL a call returns; nothing stands for `null`. -/
def returned (s : MirrorState) (call : MirrorCall) : Option String :=
  ((runCall services call).run s).1.toOption.join

/-- The state after a run of mirror calls. -/
abbrev after (calls : List MirrorCall) : MirrorState :=
  Transition.exec (next services) .empty calls

section Calls

/-- What a call does to the collection and the uploads, and what it returns. -/
inductive Effected (s : MirrorState) (call : MirrorCall) : MirrorState → Option String → Prop
  | nothing : Effected s call (downloaded s call) none
  | found {bytes : Bytes} {row : AttachmentMirrorDoc}
      (hcontent : content services s call = some bytes)
      (hsize : bytes.length ≤ MAX_ATTACHMENT_BYTES)
      (hrow : s.mirror.get? (services.sha256 bytes, call.origin) = some row) :
      Effected s call (downloaded s call) (some row.targetUrl)
  | unrecorded {bytes : Bytes} {url : String}
      (hcontent : content services s call = some bytes)
      (hsize : bytes.length ≤ MAX_ATTACHMENT_BYTES)
      (hupload : ((uploadOf services bytes call).run (downloaded s call)).1 = .ok url) :
      Effected s call
        { downloaded s call with uploads := s.uploads ++ [(call.destination, url)] } none
  | recorded {bytes : Bytes} (row : AttachmentMirrorDoc)
      (hcontent : content services s call = some bytes)
      (hsize : bytes.length ≤ MAX_ATTACHMENT_BYTES)
      (hupload : ((uploadOf services bytes call).run (downloaded s call)).1 = .ok row.targetUrl) :
      Effected s call
        { downloaded s call with
          uploads := s.uploads ++ [(call.destination, row.targetUrl)]
          mirror := s.mirror.set (services.sha256 bytes, call.origin) row
          writers := s.writers.set (services.sha256 bytes, call.origin) call.destination }
        (some row.targetUrl)

variable {services}

theorem uploadOf_uploads (bytes : Bytes) (call : MirrorCall) :
    Uploads call.destination (uploadOf services bytes call) := by
  cases call with
  | gitlabToHuly deps sourceUrl filename => exact hulyUpload_uploads services _ _ _
  | hulyToGitlab deps sourceUrl filename projectId => exact uploadFile_uploads services _ _ _ _

theorem downloaded_mirror (s : MirrorState) (call : MirrorCall) :
    (downloaded s call).mirror = s.mirror := by
  cases call <;> rfl

theorem downloaded_writers (s : MirrorState) (call : MirrorCall) :
    (downloaded s call).writers = s.writers := by
  cases call <;> rfl

theorem downloaded_uploads (s : MirrorState) (call : MirrorCall) :
    (downloaded s call).uploads = s.uploads := by
  cases call <;> rfl

/-- The end of a call whose download succeeded. -/
theorem lookupOrUpload_effected {s : MirrorState} (call : MirrorCall) {bytes : Bytes}
    (hcontent : content services s call = some bytes) (sourceUrl : String) :
    Effected services s call
      ((lookupOrUpload services call.origin call.destination (uploadOf services bytes call)
        sourceUrl bytes).run (downloaded s call)).2
      ((lookupOrUpload services call.origin call.destination (uploadOf services bytes call)
        sourceUrl bytes).run (downloaded s call)).1.toOption.join := by
  unfold lookupOrUpload
  rw [ite_run]
  by_cases hsize : MAX_ATTACHMENT_BYTES < bytes.length
  · rw [if_pos hsize]
    exact .nothing
  · rw [if_neg hsize]
    cases hfault : services.fault (downloaded s call) with
    | some e =>
      dsimp only
      rw [bind_of_error (findMirroredAttachment_run_of_fault hfault _ _)]
      exact .nothing
    | none =>
      dsimp only
      rw [bind_of_ok (findMirroredAttachment_run hfault _ _), downloaded_mirror]
      cases hrow : s.mirror.get? (services.sha256 bytes, call.origin) with
      | some row => exact .found hcontent (not_lt.mp hsize) hrow
      | none =>
        dsimp only
        have hupload := @uploadOf_uploads services bytes call (downloaded s call)
        cases hrun : (uploadOf services bytes call).run (downloaded s call) with
        | mk r s₁ =>
          rw [hrun] at hupload
          cases r with
          | error e =>
            obtain rfl : s₁ = downloaded s call := hupload
            rw [bind_of_error hrun]
            exact .nothing
          | ok url =>
            obtain ⟨rfl, -⟩ := hupload
            have hok : ((uploadOf services bytes call).run (downloaded s call)).1 = .ok url := by
              rw [hrun]
            rw [bind_of_ok hrun, downloaded_uploads]
            cases hfault' : services.fault
                { downloaded s call with
                  uploads := s.uploads ++ [(call.destination, url)] } with
            | some e =>
              rw [bind_of_error (insertMirroredAttachment_run_of_fault hfault' _ _)]
              exact .unrecorded hcontent (not_lt.mp hsize) hok
            | none =>
              have hkey : (services.sha256 bytes, call.origin) ∉
                  (downloaded s call).mirror.keys := by
                rw [downloaded_mirror]
                exact (OrderedMap.get?_eq_none_iff _ _).mp hrow
              rw [bind_of_ok (insertMirroredAttachment_run hfault' hkey _), pure_run]
              dsimp only
              rw [downloaded_mirror, downloaded_writers]
              exact .recorded ⟨services.sha256 bytes, call.origin, url, sourceUrl⟩ hcontent
                (not_lt.mp hsize) hok

theorem attempt_null_run (m : Mirror (Option String)) (s : MirrorState) :
    (Effect.attempt m fun _ => pure none).run s =
      (.ok (m.run s).1.toOption.join, (m.run s).2) := by
  rw [attempt_run]
  cases hrun : m.run s with
  | mk r s' =>
    cases r with
    | ok url => rfl
    | error e => rfl

theorem runCall_run (s : MirrorState) (call : MirrorCall) :
    (runCall services call).run s = (.ok (returned services s call), next services s call) := by
  unfold returned next
  cases call with
  | gitlabToHuly deps sourceUrl filename =>
    simp only [runCall, mirrorGitlabUploadToHuly, attempt_null_run]
    rfl
  | hulyToGitlab deps sourceUrl filename projectId =>
    simp only [runCall, mirrorHulyAttachmentToGitlab, attempt_null_run]
    rfl

theorem call_effected (s : MirrorState) (call : MirrorCall) :
    Effected services s call (next services s call) (returned services s call) := by
  unfold returned next
  cases call with
  | gitlabToHuly deps sourceUrl filename =>
    simp only [runCall, mirrorGitlabUploadToHuly, attempt_null_run]
    cases hdown : services.downloadUpload s deps.gitlabClient sourceUrl with
    | error e =>
      have hrun : (downloadUpload services deps.gitlabClient sourceUrl).run s =
          (.error e, downloaded s (.gitlabToHuly deps sourceUrl filename)) := by
        unfold downloadUpload
        rw [step_run, hdown]
        rfl
      rw [bind_of_error hrun]
      exact .nothing
    | ok file =>
      have hrun : (downloadUpload services deps.gitlabClient sourceUrl).run s =
          (.ok file, downloaded s (.gitlabToHuly deps sourceUrl filename)) := by
        unfold downloadUpload
        rw [step_run, hdown]
        rfl
      rw [bind_of_ok hrun]
      cases file with
      | none => exact .nothing
      | some bytes =>
        apply lookupOrUpload_effected (.gitlabToHuly deps sourceUrl filename)
        simp only [content, hdown]
  | hulyToGitlab deps sourceUrl filename projectId =>
    simp only [runCall, mirrorHulyAttachmentToGitlab, attempt_null_run]
    cases hdown : ((hulyDownload services deps.workspaceUuid sourceUrl).run s).1 with
    | error e =>
      rw [bind_of_error (Prod.ext hdown rfl)]
      exact .nothing
    | ok bytes =>
      rw [bind_of_ok (Prod.ext hdown rfl)]
      apply lookupOrUpload_effected (.hulyToGitlab deps sourceUrl filename projectId)
      simp only [content, hdown]
      rfl

end Calls

section Contents

/-- A call of the run uploaded the bytes, and this is the URL it got for them. -/
def LeadsTo (calls : List MirrorCall) (url : String) (bytes : Bytes) : Prop :=
  ∃ before call, before ++ [call] <+: calls ∧
    content services (after services before) call = some bytes ∧
    ((uploadOf services bytes call).run (downloaded (after services before) call)).1 = .ok url ∧
    (after services (before ++ [call])).uploads =
      (after services before).uploads ++ [(call.destination, url)]

/-- Every row leads to a file that has the hash of its key. -/
def Backed (calls : List MirrorCall) : Prop :=
  ∀ key row, (after services calls).mirror.get? key = some row →
    ∃ bytes, LeadsTo services calls row.targetUrl bytes ∧ services.sha256 bytes = key.1

variable {services} {calls : List MirrorCall} {call : MirrorCall} {url : String} {bytes : Bytes}

theorem LeadsTo.mono (h : LeadsTo services calls url bytes) {calls' : List MirrorCall}
    (hpre : calls <+: calls') : LeadsTo services calls' url bytes := by
  obtain ⟨before, call, hbefore, hrest⟩ := h
  exact ⟨before, call, hbefore.trans hpre, hrest⟩

theorem after_concat (calls : List MirrorCall) (call : MirrorCall) :
    after services (calls ++ [call]) = next services (after services calls) call :=
  Transition.exec_concat _ _ _ _

theorem LeadsTo.of_upload (hcontent : content services (after services calls) call = some bytes)
    (hupload : ((uploadOf services bytes call).run (downloaded (after services calls) call)).1 =
      .ok url)
    (huploads : (next services (after services calls) call).uploads =
      (after services calls).uploads ++ [(call.destination, url)]) :
    LeadsTo services (calls ++ [call]) url bytes := by
  refine ⟨calls, call, List.prefix_rfl, hcontent, hupload, ?_⟩
  rw [after_concat]
  exact huploads

theorem backed_concat (h : Backed services calls) : Backed services (calls ++ [call]) := by
  have hold : ∀ key row, (after services calls).mirror.get? key = some row →
      ∃ bytes, LeadsTo services (calls ++ [call]) row.targetUrl bytes ∧
        services.sha256 bytes = key.1 := by
    intro key row hrow
    obtain ⟨bytes, hleads, hhash⟩ := h key row hrow
    exact ⟨bytes, hleads.mono (List.prefix_append _ _), hhash⟩
  intro key row hrow
  rw [after_concat] at hrow
  have heffect := @call_effected services (after services calls) call
  generalize hs : next services (after services calls) call = s at heffect hrow
  generalize returned services (after services calls) call = r at heffect
  cases heffect with
  | nothing =>
    rw [downloaded_mirror] at hrow
    exact hold key row hrow
  | found =>
    rw [downloaded_mirror] at hrow
    exact hold key row hrow
  | unrecorded =>
    dsimp only at hrow
    rw [downloaded_mirror] at hrow
    exact hold key row hrow
  | @recorded bytes row' hcontent hsize hupload =>
    dsimp only at hrow
    by_cases hkey : key = (services.sha256 bytes, call.origin)
    · rw [hkey, OrderedMap.get?_set_self] at hrow
      obtain rfl : row' = row := Option.some.inj hrow
      refine ⟨bytes, LeadsTo.of_upload hcontent hupload ?_, by rw [hkey]⟩
      rw [hs]
    · rw [OrderedMap.get?_set_of_ne _ hkey] at hrow
      exact hold key row hrow

theorem backed_after (calls : List MirrorCall) : Backed services calls := by
  induction calls using List.reverseRecOn with
  | nil =>
    intro key row hrow
    cases hrow
  | append_singleton calls call ih => exact backed_concat ih

/-- What a call returns leads to a file with the hash of the one it downloaded. -/
theorem leadsTo_of_returned (h : returned services (after services calls) call = some url) :
    ∃ bytes bytes', content services (after services calls) call = some bytes ∧
      bytes.length ≤ MAX_ATTACHMENT_BYTES ∧ LeadsTo services (calls ++ [call]) url bytes' ∧
      services.sha256 bytes' = services.sha256 bytes := by
  have heffect := @call_effected services (after services calls) call
  generalize hs : next services (after services calls) call = s at heffect
  rw [h] at heffect
  generalize hurl : some url = r at heffect
  cases heffect with
  | nothing => cases hurl
  | @found bytes row hcontent hsize hrow =>
    obtain rfl : url = row.targetUrl := Option.some.inj hurl
    obtain ⟨bytes', hleads, hhash⟩ := backed_after calls _ row hrow
    exact ⟨bytes, bytes', hcontent, hsize, hleads.mono (List.prefix_append _ _), hhash⟩
  | unrecorded => cases hurl
  | @recorded bytes row hcontent hsize hupload =>
    obtain rfl : url = row.targetUrl := Option.some.inj hurl
    refine ⟨bytes, bytes, hcontent, hsize, LeadsTo.of_upload hcontent hupload ?_, rfl⟩
    rw [hs]

theorem next_uploads (s : MirrorState) (call : MirrorCall) :
    s.uploads <+: (next services s call).uploads := by
  have heffect := @call_effected services s call
  generalize next services s call = s' at heffect ⊢
  generalize returned services s call = r at heffect
  cases heffect with
  | nothing => rw [downloaded_uploads]
  | found => rw [downloaded_uploads]
  | unrecorded => exact List.prefix_append _ _
  | recorded => exact List.prefix_append _ _

theorem after_uploads {calls' : List MirrorCall} (h : calls <+: calls') :
    (after services calls).uploads <+: (after services calls').uploads := by
  obtain ⟨rest, rfl⟩ := h
  induction rest using List.reverseRecOn with
  | nil => rw [List.append_nil]
  | append_singleton rest call ih =>
    rw [← List.append_assoc, after_concat]
    exact ih.trans (next_uploads _ _)

theorem recorded_after (calls : List MirrorCall) : Recorded (after services calls) := by
  apply Transition.exec_invariant' _ recorded_empty
  intro s call h
  exact (runCall_outcome services h call).recorded

/-- The second of two uploads got another URL. -/
theorem LeadsTo.ne_of_later {before before' : List MirrorCall} {call call' : MirrorCall}
    {url' : String} (hlater : before ++ [call] <+: before')
    (huploads : (after services (before ++ [call])).uploads =
      (after services before).uploads ++ [(call.destination, url)])
    (huploads' : (after services (before' ++ [call'])).uploads =
      (after services before').uploads ++ [(call'.destination, url')]) : url ≠ url' := by
  have hmem : (call.destination, url) ∈ (after services before').uploads := by
    apply (after_uploads hlater).subset
    rw [huploads]
    exact List.mem_append_right _ List.mem_cons_self
  have hnodup := (@recorded_after services (before' ++ [call'])).urls
  rw [huploads', List.map_append, List.nodup_append] at hnodup
  exact hnodup.2.2 url (List.mem_map_of_mem hmem) url' List.mem_cons_self

/-- A URL leads to one file. -/
theorem LeadsTo.unique {bytes' : Bytes} (h : LeadsTo services calls url bytes)
    (h' : LeadsTo services calls url bytes') : bytes = bytes' := by
  obtain ⟨before, call, hpre, hcontent, -, huploads⟩ := h
  obtain ⟨before', call', hpre', hcontent', -, huploads'⟩ := h'
  obtain hlt | heq | hlt := lt_trichotomy before.length before'.length
  · refine absurd rfl (LeadsTo.ne_of_later ?_ huploads huploads')
    apply List.prefix_of_prefix_length_le hpre ((List.prefix_append _ _).trans hpre')
    rw [List.length_append]
    exact hlt
  · obtain ⟨rfl, hcall⟩ : before = before' ∧ [call] = [call'] := by
      apply List.append_inj _ heq
      apply (List.prefix_of_prefix_length_le hpre hpre' (by simp [heq])).eq_of_length
      simp [heq]
    obtain rfl : call = call' := List.singleton_inj.mp hcall
    exact Option.some.inj (hcontent.symm.trans hcontent')
  · refine absurd rfl (LeadsTo.ne_of_later ?_ huploads' huploads)
    apply List.prefix_of_prefix_length_le hpre' ((List.prefix_append _ _).trans hpre)
    rw [List.length_append]
    exact hlt

end Contents

section Bodies

/-- The call of a link of the body with this URL, behind the calls before it. -/
def Visits (calls : List MirrorCall) (b : BodyMirror) (sourceUrl : String)
    (before : List MirrorCall) (call : MirrorCall) : Prop :=
  ∃ visited link rest,
    b.links services.decodeURIComponent = visited ++ link :: rest ∧
      link.sourceUrl = sourceUrl ∧ before = calls ++ visited.map b.call ∧ call = b.call link

/-- What becomes of a link of the body. -/
inductive Mirrored (calls : List MirrorCall) (b : BodyMirror) (m : LinkMatch) : LinkMatch → Prop
  | kept (h : ∀ before call url, Visits services calls b (String.ofList (trim m.url)) before call →
      returned services (after services before) call = some url →
      url = String.ofList (trim m.url)) : Mirrored calls b m m
  | moved {before : List MirrorCall} {call : MirrorCall} {url : String} {bytes bytes' : Bytes}
      (hvisit : Visits services calls b (String.ofList (trim m.url)) before call)
      (hcontent : content services (after services before) call = some bytes)
      (hsize : bytes.length ≤ MAX_ATTACHMENT_BYTES)
      (hleads : LeadsTo services (calls ++ callsOf services b) url bytes')
      (hhash : services.sha256 bytes' = services.sha256 bytes) :
      Mirrored calls b m { m with url := url.toList }

/-- The ids of documents are letters and digits, and GitLab's URLs can stand in a link. -/
structure PlainUrls : Prop where
  createBlob : ∀ s workspaceUuid filename bytes ref,
    services.createBlob s workspaceUuid filename bytes = .ok ref →
      ref ≠ "" ∧ ∀ c ∈ ref.toList, c.isAlphanum = true
  uploadFile : ∀ s client projectId filename bytes url,
    services.uploadFile s client projectId filename bytes = .ok url →
      url.toList ≠ [] ∧ trim url.toList = url.toList ∧ ')' ∉ url.toList

variable {services}

theorem runBody_eq (b : BodyMirror) :
    runBody services b = Effect.mapEach (fun link : AttachmentLink => do
        let targetUrl ← runCall services (b.call link)
        pure (mappingOf link.sourceUrl targetUrl)) (b.links services.decodeURIComponent) >>=
      fun mappings => pure (rewriteAttachmentLinks b.body mappings.flatten) := by
  cases b with
  | gitlabToHuly deps body gitlabBaseUrl projectPath => rfl
  | hulyToGitlab deps body projectId => rfl

theorem mem_mappingOf {sourceUrl : String} {targetUrl : Option String} {m : AttachmentMapping} :
    m ∈ mappingOf sourceUrl targetUrl ↔ m.sourceUrl = sourceUrl ∧ targetUrl = some m.targetUrl := by
  cases targetUrl with
  | none => simp [mappingOf]
  | some url =>
    simp only [mappingOf, Option.toList_some, List.map_cons, List.map_nil, List.mem_singleton,
      Option.some.injEq]
    constructor
    · rintro rfl
      exact ⟨rfl, rfl⟩
    · rintro ⟨rfl, rfl⟩
      rfl

/-- The run of a body is the run of its calls, and it maps what they return. -/
theorem runBody_run (calls : List MirrorCall) (b : BodyMirror) :
    ∃ mappings, (runBody services b).run (after services calls) =
        (.ok (rewriteAttachmentLinks b.body mappings),
          after services (calls ++ callsOf services b)) ∧
      ∀ m, m ∈ mappings ↔ ∃ before call, Visits services calls b m.sourceUrl before call ∧
        returned services (after services before) call = some m.targetUrl := by
  have hlink : ∀ (s : MirrorState) (link : AttachmentLink),
      (runCall services (b.call link) >>= fun targetUrl =>
          (pure (mappingOf link.sourceUrl targetUrl) : Mirror (List AttachmentMapping))).run s =
        (.ok (mappingOf link.sourceUrl (returned services s (b.call link))),
          next services s (b.call link)) := by
    intro s link
    rw [bind_of_ok (runCall_run s (b.call link)), pure_run]
  have hexec : ∀ links : List AttachmentLink,
      links.foldl (fun s link => next services s (b.call link)) (after services calls) =
        after services (calls ++ links.map b.call) := by
    intro links
    unfold after
    rw [Transition.exec_append (next services) _ calls]
    simp only [Transition.exec, List.foldl_map]
  obtain ⟨bs, hrun, hmem⟩ := mapEach_run_of_ok hlink (b.links services.decodeURIComponent)
    (after services calls)
  refine ⟨bs.flatten, ?_, fun m => ?_⟩
  · rw [runBody_eq, bind_of_ok hrun, pure_run, hexec]
    rfl
  · rw [List.mem_flatten]
    constructor
    · rintro ⟨ms, hms, hm⟩
      obtain ⟨visited, link, rest, hlinks, rfl⟩ := (hmem ms).mp hms
      obtain ⟨hsource, hreturned⟩ := mem_mappingOf.mp hm
      rw [hexec] at hreturned
      exact ⟨_, _, ⟨visited, link, rest, hlinks, hsource.symm, rfl, rfl⟩, hreturned⟩
    · rintro ⟨before, call, ⟨visited, link, rest, hlinks, hsource, rfl, rfl⟩, hreturned⟩
      refine ⟨_, (hmem _).mpr ⟨visited, link, rest, hlinks, rfl⟩, mem_mappingOf.mpr ?_⟩
      rw [hexec]
      exact ⟨hsource.symm, hreturned⟩

theorem isJsSpace_of_isAlphanum {c : Char} (h : c.isAlphanum = true) : isJsSpace c = false := by
  have hranges : (decide (c.val ≥ 'A'.val ∧ c.val ≤ 'Z'.val) ||
      (c.val ≥ 'a'.val && c.val ≤ 'z'.val) || (c.val ≥ '0'.val && c.val ≤ '9'.val)) = true := h
  simp only [Bool.or_eq_true, Bool.and_eq_true, decide_eq_true_eq, ge_iff_le,
    UInt32.le_iff_toNat_le] at hranges
  simp only [isJsSpace, Char.toNat, List.mem_cons, List.not_mem_nil, or_false,
    decide_eq_false_iff_not]
  have h1 : 'A'.val.toNat = 65 := rfl
  have h2 : 'a'.val.toNat = 97 := rfl
  have h3 : '0'.val.toNat = 48 := rfl
  have h4 : 'Z'.val.toNat = 90 := rfl
  have h5 : 'z'.val.toNat = 122 := rfl
  have h6 : '9'.val.toNat = 57 := rfl
  omega

/-- A text whose ends are no spaces is trimmed. -/
theorem trim_eq_self {s : List Char} (hhead : ∀ c ∈ s.head?, isJsSpace c = false)
    (hlast : ∀ c ∈ s.getLast?, isJsSpace c = false) : trim s = s := by
  have hdrop : s.dropWhile isJsSpace = s := by
    cases s with
    | nil => rfl
    | cons c cs => exact List.dropWhile_cons_of_neg (by simp [hhead c rfl])
  unfold trim
  rw [hdrop, List.rdropWhile_eq_self_iff]
  intro hne
  simp [hlast _ (List.getLast?_eq_some_getLast hne)]

theorem plain_attachment {ref : String} (hne : ref ≠ "")
    (halnum : ∀ c ∈ ref.toList, c.isAlphanum = true) :
    ("attachments://" ++ ref).toList ≠ [] ∧
      trim ("attachments://" ++ ref).toList = ("attachments://" ++ ref).toList ∧
      ')' ∉ ("attachments://" ++ ref).toList := by
  rw [String.toList_append]
  have href : ref.toList ≠ [] := fun h => hne (String.toList_eq_nil_iff.mp h)
  refine ⟨by simp, ?_, ?_⟩
  · apply trim_eq_self
    · rintro c ⟨⟩
      decide
    · intro c hc
      rw [List.getLast?_append_of_ne_nil _ href] at hc
      exact isJsSpace_of_isAlphanum (halnum c (List.mem_of_getLast? hc))
  · rw [List.mem_append]
    rintro (h | h)
    · exact absurd h (by decide)
    · exact absurd (halnum _ h) (by decide)

theorem PlainUrls.uploadOf (plain : PlainUrls services) {bytes : Bytes} {call : MirrorCall}
    {s : MirrorState} {url : String}
    (h : ((uploadOf services bytes call).run s).1 = .ok url) :
    url.toList ≠ [] ∧ trim url.toList = url.toList ∧ ')' ∉ url.toList := by
  cases call with
  | gitlabToHuly deps sourceUrl filename =>
    simp only [Attachments.uploadOf, hulyUpload] at h
    cases hname : validateFilename filename with
    | error e =>
      rw [hname, ofExcept_error_bind_run] at h
      cases h
    | ok u =>
      rw [hname, ofExcept_ok_bind_run, ite_run] at h
      split at h
      · cases h
      · rw [step_run] at h
        cases hblob : services.createBlob s deps.workspaceUuid filename bytes with
        | error e =>
          rw [hblob] at h
          cases h
        | ok ref =>
          rw [hblob] at h
          cases h
          obtain ⟨hne, halnum⟩ := plain.createBlob _ _ _ _ _ hblob
          exact plain_attachment hne halnum
  | hulyToGitlab deps sourceUrl filename projectId =>
    simp only [Attachments.uploadOf, Attachments.uploadFile, step_run] at h
    cases hup : services.uploadFile s deps.gitlabClient projectId filename bytes with
    | error e =>
      rw [hup] at h
      cases h
    | ok url' =>
      rw [hup] at h
      cases h
      exact plain.uploadFile _ _ _ _ _ _ hup

theorem lastTarget_isSome {mappings : List AttachmentMapping} {sourceUrl targetUrl : String}
    (h : ⟨sourceUrl, targetUrl⟩ ∈ mappings) (hne : targetUrl ≠ sourceUrl) :
    ∃ target, lastTarget mappings sourceUrl = some target := by
  have hin : (⟨sourceUrl, targetUrl⟩ : AttachmentMapping) ∈
      mappings.filter fun m => m.sourceUrl = sourceUrl ∧ m.targetUrl ≠ sourceUrl :=
    List.mem_filter.mpr ⟨h, decide_eq_true ⟨rfl, hne⟩⟩
  exact ⟨_, congrArg (Option.map AttachmentMapping.targetUrl)
    (List.getLast?_eq_some_getLast (List.ne_nil_of_mem hin))⟩

theorem mirrored_retarget {calls : List MirrorCall} {b : BodyMirror}
    {mappings : List AttachmentMapping}
    (hmem : ∀ m, m ∈ mappings ↔ ∃ before call, Visits services calls b m.sourceUrl before call ∧
      returned services (after services before) call = some m.targetUrl) (m : LinkMatch) :
    Mirrored services calls b m (retarget mappings m) := by
  unfold retarget
  cases htarget : lastTarget mappings (String.ofList (trim m.url)) with
  | none =>
    apply Mirrored.kept
    intro before call url hvisit hreturned
    by_contra hne
    have hin : (⟨String.ofList (trim m.url), url⟩ : AttachmentMapping) ∈ mappings :=
      (hmem _).mpr ⟨before, call, hvisit, hreturned⟩
    obtain ⟨target, htarget'⟩ := lastTarget_isSome hin hne
    rw [htarget] at htarget'
    cases htarget'
  | some target =>
    obtain ⟨m', hm', hsource, rfl, -⟩ := lastTarget_mem htarget
    obtain ⟨before, call, hvisit, hreturned⟩ := (hmem m').mp hm'
    rw [hsource] at hvisit
    obtain ⟨bytes, bytes', hcontent, hsize, hleads, hhash⟩ := leadsTo_of_returned hreturned
    refine .moved hvisit hcontent hsize (hleads.mono ?_) hhash
    obtain ⟨visited, link, rest, hlinks, -, rfl, rfl⟩ := hvisit
    refine ⟨rest.map b.call, ?_⟩
    simp [callsOf, hlinks]

/-- In whatever state a body is mirrored, its links stay in their places between the same texts.
Each is as it was, or has the URL of an uploaded file with the hash of what was downloaded for
it, and no URL leads to two files. -/
theorem links_lead_to_contents (plain : PlainUrls services) (calls : List MirrorCall)
    (b : BodyMirror) :
    ∃ body', (runBody services b).run (after services calls) =
        (.ok body', after services (calls ++ callsOf services b)) ∧
      (∃ parts parts' last, b.body.toList = weave linkText parts last ∧
        body'.toList = weave linkText parts' last ∧
        links b.body = parts.map Prod.snd ∧ links body' = parts'.map Prod.snd ∧
        List.Forall₂ (fun part part' => part'.1 = part.1 ∧
          Mirrored services calls b part.2 part'.2) parts parts') ∧
      ∀ url bytes bytes', LeadsTo services (calls ++ callsOf services b) url bytes →
        LeadsTo services (calls ++ callsOf services b) url bytes' → bytes = bytes' := by
  obtain ⟨mappings, hrun, hmem⟩ := @runBody_run services calls b
  have hplain : PlainTargets mappings := by
    intro m hm
    obtain ⟨before, call, -, hreturned⟩ := (hmem m).mp hm
    obtain ⟨-, bytes', -, -, ⟨_, _, -, -, hupload, -⟩, -⟩ := leadsTo_of_returned hreturned
    exact plain.uploadOf hupload
  obtain ⟨parts, last, hbody, hscan⟩ := exists_scanned lawful b.body.toList
  have hscan' := scanned_retarget hplain hscan
  have hresult : (rewriteAttachmentLinks b.body mappings).toList =
      weave linkText (parts.map fun part => (part.1, retarget mappings part.2)) last :=
    rewrite_weave hbody hscan
  refine ⟨_, hrun, ⟨parts, _, last, hbody, hresult, ?_, ?_, ?_⟩, fun _ _ _ => LeadsTo.unique⟩
  · rw [links, findLinks_eq, hbody, hscan.findAll_eq lawful]
  · rw [links, findLinks_eq, hresult, hscan'.findAll_eq lawful]
  · rw [List.forall₂_map_right_iff]
    exact List.forall₂_same.mpr fun part _ => ⟨rfl, mirrored_retarget hmem part.2⟩

theorem plainUrls_quiet : PlainUrls .quiet where
  createBlob s workspaceUuid filename bytes ref h := by
    cases h
    refine ⟨fun hempty => ?_, fun c hc => ?_⟩
    · have hlength := congrArg String.length hempty
      simp [longerText] at hlength
    · rw [longerText, String.toList_ofList] at hc
      rw [List.eq_of_mem_replicate hc]
      decide
  uploadFile s client projectId filename bytes url h := by
    cases h
    rw [longerText, String.toList_ofList]
    refine ⟨by simp, ?_, fun hparen => ?_⟩
    · apply trim_eq_self
      · intro c hc
        rw [List.eq_of_mem_replicate (List.mem_of_mem_head? hc)]
        decide
      · intro c hc
        rw [List.eq_of_mem_replicate (List.mem_of_getLast? hc)]
        decide
    · exact absurd (List.eq_of_mem_replicate hparen) (by decide)

/-- An image of a body from GitLab, and a link that is none of its uploads. -/
def sampleBody : BodyMirror :=
  .gitlabToHuly ⟨"ws", ⟨"https://gitlab.com", "token"⟩⟩
    "see ![a](/uploads/1a/a.png) and [b](https://example.org)" "https://gitlab.com" "group/project"

theorem links_lead_to_contents_image :
    ((runBody .quiet sampleBody).run .empty).1 =
        .ok "see ![a](attachments://x) and [b](https://example.org)" ∧
      ∃ body', (runBody .quiet sampleBody).run .empty =
          (.ok body', after .quiet ([] ++ callsOf .quiet sampleBody)) ∧
        ∃ parts parts' last, sampleBody.body.toList = weave linkText parts last ∧
          body'.toList = weave linkText parts' last ∧
          List.Forall₂ (fun part part' => part'.1 = part.1 ∧
            Mirrored .quiet [] sampleBody part.2 part'.2) parts parts' := by
  obtain ⟨body', hrun, ⟨parts, parts', last, hbody, hbody', -, -, hlinks⟩, -⟩ :=
    links_lead_to_contents plainUrls_quiet [] sampleBody
  exact ⟨by decide +kernel, body', hrun, parts, parts', last, hbody, hbody', hlinks⟩

end Bodies

end Attachments

end HulyGitlab
