import HulyGitlab.Sync.Attachments

/-!
# Tenants of the attachment mirror

Which destination the URL of a mirror call belongs to, over any sequence of
calls by any bindings that share the collection.
-/

namespace HulyGitlab

/-- A call of one of the two mirrors by a binding. -/
inductive MirrorCall
  | gitlabToHuly (deps : MirrorDeps) (sourceUrl filename : String)
  | hulyToGitlab (deps : MirrorDeps) (sourceUrl filename : String) (projectId : Int)
  deriving DecidableEq

namespace MirrorCall

/-- The call's own store, or its own instance and project. -/
def destination : MirrorCall → Destination
  | .gitlabToHuly deps _ _ => .huly deps.workspaceUuid
  | .hulyToGitlab deps _ _ projectId => .gitlab deps.gitlabClient.baseUrl projectId

def origin : MirrorCall → AttachmentOrigin
  | .gitlabToHuly _ _ _ => .gitlab
  | .hulyToGitlab _ _ _ _ => .huly

end MirrorCall

namespace Attachments

open Effect

variable (services : MirrorServices)

/-- The upload a call makes when no row has its content. -/
def uploadOf (bytes : Bytes) : MirrorCall → Mirror String
  | .gitlabToHuly deps _ filename => hulyUpload services deps.workspaceUuid filename bytes
  | .hulyToGitlab deps _ filename projectId =>
      uploadFile services deps.gitlabClient projectId filename bytes

def runCall : MirrorCall → Mirror (Option String)
  | .gitlabToHuly deps sourceUrl filename =>
      mirrorGitlabUploadToHuly services deps sourceUrl filename
  | .hulyToGitlab deps sourceUrl filename projectId =>
      mirrorHulyAttachmentToGitlab services deps sourceUrl filename projectId

/-- The content a call downloads. -/
def content (s : MirrorState) : MirrorCall → Option Bytes
  | .gitlabToHuly deps sourceUrl _ =>
      match services.downloadUpload s deps.gitlabClient sourceUrl with
      | .ok bytes => bytes
      | .error _ => none
  | .hulyToGitlab deps sourceUrl _ _ =>
      ((hulyDownload services deps.workspaceUuid sourceUrl).run s).1.toOption

/-- The state behind the download of a call. -/
def downloaded (s : MirrorState) : MirrorCall → MirrorState
  | .gitlabToHuly _ sourceUrl _ => { s with downloads := s.downloads ++ [sourceUrl] }
  | .hulyToGitlab _ _ _ _ => s

/-- Who wrote the row that the call finds for its content. -/
def foundWriter (s : MirrorState) (call : MirrorCall) : Option Destination :=
  match content services s call with
  | none => none
  | some bytes =>
      if MAX_ATTACHMENT_BYTES < bytes.length then none
      else if (services.fault (downloaded s call)).isSome then none
      else s.writers.get? (services.sha256 bytes, call.origin)

/-- The calls of a run, with the URLs they returned. -/
structure MirrorRun where
  state : MirrorState
  returned : List (Destination × String)
  deriving DecidableEq

def stepCall (r : MirrorRun) (call : MirrorCall) : MirrorRun where
  state := ((runCall services call).run r.state).2
  returned := r.returned ++
    match ((runCall services call).run r.state).1 with
    | .ok (some url) => [(call.destination, url)]
    | _ => []

/-- Every URL that was returned is one of the call's own destination. -/
def OwnUrls (r : MirrorRun) : Prop := ∀ entry ∈ r.returned, entry ∈ r.state.uploads

/-- No row of the call's content was written for another destination. -/
def OwnRow (r : MirrorRun) (call : MirrorCall) : Prop :=
  ∀ writer ∈ foundWriter services r.state call, writer = call.destination

/-- Each row has a writer, who uploaded its target; no two uploads have the same URL. -/
structure Recorded (s : MirrorState) : Prop where
  rows : ∀ key row, s.mirror.get? key = some row → ∃ writer, s.writers.get? key = some writer
  writers : ∀ key writer, s.writers.get? key = some writer →
    ∃ row, s.mirror.get? key = some row ∧ (writer, row.targetUrl) ∈ s.uploads
  urls : (s.uploads.map Prod.snd).Nodup

theorem recorded_empty : Recorded MirrorState.empty :=
  ⟨fun _ _ h => (by cases h), fun _ _ h => (by cases h), List.nodup_nil⟩

/-- An upload of a call: an error changes nothing, and a URL is new. -/
def Uploads (dest : Destination) (upload : Mirror String) : Prop :=
  ∀ s, match upload.run s with
    | (.ok url, s') =>
        s' = { s with uploads := s.uploads ++ [(dest, url)] } ∧ url ∉ s.uploads.map Prod.snd
    | (.error _, s') => s' = s

theorem hulyUpload_uploads (workspaceUuid filename : String) (bytes : Bytes) :
    Uploads (.huly workspaceUuid) (hulyUpload services workspaceUuid filename bytes) := by
  intro s
  unfold hulyUpload
  cases validateFilename filename with
  | error e => rfl
  | ok u =>
    rw [ofExcept_ok_bind_run, ite_run]
    by_cases hsize : MAX_ATTACHMENT_BYTES < bytes.length
    · rw [if_pos hsize]
      rfl
    · rw [if_neg hsize, step_run]
      cases hblob : services.createBlob s workspaceUuid filename bytes with
      | error e => rfl
      | ok ref => exact ⟨rfl, services.createBlob_fresh _ _ _ _ _ hblob⟩

theorem uploadFile_uploads (client : GitLabClient) (projectId : Int) (filename : String)
    (bytes : Bytes) :
    Uploads (.gitlab client.baseUrl projectId)
      (uploadFile services client projectId filename bytes) := by
  intro s
  unfold uploadFile
  rw [step_run]
  cases hup : services.uploadFile s client projectId filename bytes with
  | error e => rfl
  | ok url => exact ⟨rfl, services.uploadFile_fresh _ _ _ _ _ _ hup⟩

/-- What the end of a mirror call leaves: the row's URL, its own upload, or nothing. -/
structure Outcome (dest : Destination) (found : Option Destination) (s s' : MirrorState)
    (result : Except Err (Option String)) : Prop where
  recorded : Recorded s'
  uploads : ∀ entry ∈ s.uploads, entry ∈ s'.uploads
  own : found = none → ∀ url, result = .ok (some url) → (dest, url) ∈ s'.uploads
  row : ∀ writer, found = some writer → ∃ url, result = .ok (some url) ∧ (writer, url) ∈ s'.uploads

theorem Recorded.upload {s : MirrorState} (h : Recorded s) {url : String}
    (hurl : url ∉ s.uploads.map Prod.snd) (dest : Destination) :
    Recorded { s with uploads := s.uploads ++ [(dest, url)] } := by
  refine ⟨h.rows, fun key writer hkey => ?_, ?_⟩
  · obtain ⟨row, hrow, hmem⟩ := h.writers key writer hkey
    exact ⟨row, hrow, List.mem_append_left _ hmem⟩
  · dsimp only
    rw [List.map_append, List.nodup_append]
    refine ⟨h.urls, List.nodup_singleton _, fun a ha b hb => ?_⟩
    obtain rfl : b = url := by simpa using hb
    exact fun hab => hurl (hab ▸ ha)

theorem Recorded.insert {s : MirrorState} (h : Recorded s) {key : String × AttachmentOrigin}
    {row : AttachmentMirrorDoc} {dest : Destination} (hmem : (dest, row.targetUrl) ∈ s.uploads) :
    Recorded { s with mirror := s.mirror.set key row, writers := s.writers.set key dest } := by
  refine ⟨fun k r hk => ?_, fun k w hk => ?_, h.urls⟩
  · dsimp only at hk ⊢
    by_cases hkey : k = key
    · rw [hkey, OrderedMap.get?_set_self]
      exact ⟨dest, rfl⟩
    · rw [OrderedMap.get?_set_of_ne _ hkey] at hk ⊢
      exact h.rows k r hk
  · dsimp only at hk ⊢
    by_cases hkey : k = key
    · rw [hkey, OrderedMap.get?_set_self] at hk ⊢
      obtain rfl : dest = w := Option.some.inj hk
      exact ⟨row, rfl, hmem⟩
    · rw [OrderedMap.get?_set_of_ne _ hkey] at hk ⊢
      exact h.writers k w hk

theorem lookupOrUpload_outcome (origin : AttachmentOrigin) {dest : Destination}
    {upload : Mirror String} (hup : Uploads dest upload) (sourceUrl : String) (bytes : Bytes)
    {s : MirrorState} (h : Recorded s) :
    Outcome dest
      (if MAX_ATTACHMENT_BYTES < bytes.length then none
        else if (services.fault s).isSome then none
        else s.writers.get? (services.sha256 bytes, origin))
      s ((lookupOrUpload services origin dest upload sourceUrl bytes).run s).2
      ((lookupOrUpload services origin dest upload sourceUrl bytes).run s).1 := by
  have hkeep : ∀ result : Except Err (Option String), (∀ url, result ≠ .ok (some url)) →
      Outcome dest none s s result := fun result hresult =>
    ⟨h, fun _ hentry => hentry, fun _ url hurl => absurd hurl (hresult url),
      fun _ hfound => (by cases hfound)⟩
  unfold lookupOrUpload
  rw [ite_run]
  by_cases hsize : MAX_ATTACHMENT_BYTES < bytes.length
  · rw [if_pos hsize, if_pos hsize]
    exact hkeep _ fun url hurl => by cases hurl
  · rw [if_neg hsize, if_neg hsize]
    cases hfault : services.fault s with
    | some e =>
      dsimp only
      rw [bind_of_error (findMirroredAttachment_run_of_fault hfault _ _)]
      exact hkeep _ fun url hurl => by cases hurl
    | none =>
      dsimp only
      rw [bind_of_ok (findMirroredAttachment_run hfault _ _)]
      cases hrow : s.mirror.get? (services.sha256 bytes, origin) with
      | some row =>
        obtain ⟨writer, hwriter⟩ := h.rows _ _ hrow
        obtain ⟨row', hrow', hmem⟩ := h.writers _ _ hwriter
        obtain rfl : row = row' := Option.some.inj (hrow.symm.trans hrow')
        refine ⟨h, fun _ hentry => hentry, fun hnone => ?_, fun w hw => ?_⟩
        · have hnone' : s.writers.get? (services.sha256 bytes, origin) = none := hnone
          rw [hwriter] at hnone'
          cases hnone'
        · have hw' : s.writers.get? (services.sha256 bytes, origin) = some w := hw
          obtain rfl : writer = w := Option.some.inj (hwriter.symm.trans hw')
          exact ⟨row.targetUrl, rfl, hmem⟩
      | none =>
        have hnone : s.writers.get? (services.sha256 bytes, origin) = none := by
          cases hw : s.writers.get? (services.sha256 bytes, origin) with
          | none => rfl
          | some writer =>
            obtain ⟨row, hrow', -⟩ := h.writers _ _ hw
            rw [hrow] at hrow'
            cases hrow'
        dsimp only
        rw [hnone]
        have hupload := hup s
        cases hrun : upload.run s with
        | mk r s₁ =>
          rw [hrun] at hupload
          cases r with
          | error e =>
            obtain rfl : s₁ = s := hupload
            rw [bind_of_error hrun]
            exact hkeep _ fun url hurl => by cases hurl
          | ok url =>
            obtain ⟨rfl, hfresh⟩ := hupload
            have hrec := h.upload hfresh dest
            have hmem : (dest, url) ∈ s.uploads ++ [(dest, url)] := by simp
            rw [bind_of_ok hrun]
            cases hfault' : services.fault { s with uploads := s.uploads ++ [(dest, url)] } with
            | some e =>
              rw [bind_of_error (insertMirroredAttachment_run_of_fault hfault' _ _)]
              exact ⟨hrec, fun entry hentry => List.mem_append_left _ hentry,
                fun _ url' hurl' => (by cases hurl'), fun _ hfound => (by cases hfound)⟩
            | none =>
              have hkey : (services.sha256 bytes, origin) ∉ s.mirror.keys :=
                (OrderedMap.get?_eq_none_iff _ _).mp hrow
              rw [bind_of_ok (insertMirroredAttachment_run hfault' hkey dest), pure_run]
              refine ⟨hrec.insert hmem, fun entry hentry => List.mem_append_left _ hentry,
                fun _ url' hurl' => ?_, fun _ hfound => (by cases hfound)⟩
              cases hurl'
              exact hmem

/-- `null` in place of an error keeps the outcome. -/
theorem Outcome.attempt {dest : Destination} {found : Option Destination} {s : MirrorState}
    {m : Mirror (Option String)} (h : Outcome dest found s (m.run s).2 (m.run s).1) :
    Outcome dest found s ((Effect.attempt m fun _ => pure none).run s).2
      ((Effect.attempt m fun _ => pure none).run s).1 := by
  rw [attempt_run]
  cases hrun : m.run s with
  | mk r s' =>
    rw [hrun] at h
    cases r with
    | ok url => exact h
    | error e =>
      refine ⟨h.recorded, h.uploads, fun _ url hurl => (by cases hurl), fun writer hw => ?_⟩
      obtain ⟨url, hurl, -⟩ := h.row writer hw
      cases hurl

theorem Recorded.congr {s s' : MirrorState} (h : Recorded s) (hmirror : s'.mirror = s.mirror)
    (hwriters : s'.writers = s.writers) (huploads : s'.uploads = s.uploads) : Recorded s' := by
  refine ⟨?_, ?_, ?_⟩
  · rw [hmirror, hwriters]
    exact h.rows
  · rw [hmirror, hwriters, huploads]
    exact h.writers
  · rw [huploads]
    exact h.urls

/-- What a call leaves, by the writer of the row it finds. -/
theorem runCall_outcome {s : MirrorState} (h : Recorded s) (call : MirrorCall) :
    Outcome call.destination (foundWriter services s call) s ((runCall services call).run s).2
      ((runCall services call).run s).1 := by
  have hkeep : ∀ s' : MirrorState, s'.mirror = s.mirror → s'.writers = s.writers →
      s'.uploads = s.uploads → ∀ result : Except Err (Option String),
      (∀ url, result ≠ .ok (some url)) → Outcome call.destination none s s' result :=
    fun s' hmirror hwriters huploads result hresult =>
      ⟨h.congr hmirror hwriters huploads, fun entry hentry => huploads ▸ hentry,
        fun _ url hurl => absurd hurl (hresult url), fun _ hfound => (by cases hfound)⟩
  unfold foundWriter
  cases call with
  | gitlabToHuly deps sourceUrl filename =>
    apply Outcome.attempt
    dsimp only [content, downloaded, MirrorCall.destination, MirrorCall.origin] at hkeep ⊢
    cases hdown : services.downloadUpload s deps.gitlabClient sourceUrl with
    | error e =>
      have hrun : (downloadUpload services deps.gitlabClient sourceUrl).run s =
          (.error e, { s with downloads := s.downloads ++ [sourceUrl] }) := by
        unfold downloadUpload
        rw [step_run, hdown]
      rw [bind_of_error hrun]
      exact hkeep { s with downloads := s.downloads ++ [sourceUrl] } rfl rfl rfl (.error e)
        fun url hurl => by cases hurl
    | ok bytes =>
      have hrun : (downloadUpload services deps.gitlabClient sourceUrl).run s =
          (.ok bytes, { s with downloads := s.downloads ++ [sourceUrl] }) := by
        unfold downloadUpload
        rw [step_run, hdown]
      rw [bind_of_ok hrun]
      cases bytes with
      | none =>
        exact hkeep { s with downloads := s.downloads ++ [sourceUrl] } rfl rfl rfl (.ok none)
          fun url hurl => by cases hurl
      | some bytes =>
        have hrec : Recorded { s with downloads := s.downloads ++ [sourceUrl] } :=
          h.congr rfl rfl rfl
        have hout := lookupOrUpload_outcome services .gitlab
          (hulyUpload_uploads services deps.workspaceUuid filename bytes) sourceUrl bytes hrec
        exact ⟨hout.recorded, hout.uploads, hout.own, hout.row⟩
  | hulyToGitlab deps sourceUrl filename projectId =>
    apply Outcome.attempt
    dsimp only [content, downloaded, MirrorCall.destination, MirrorCall.origin] at hkeep ⊢
    have hstate : ((hulyDownload services deps.workspaceUuid sourceUrl).run s).2 = s := rfl
    cases hrun : (hulyDownload services deps.workspaceUuid sourceUrl).run s with
    | mk r s₁ =>
      rw [hrun] at hstate
      obtain rfl : s₁ = s := hstate
      cases r with
      | error e =>
        rw [bind_of_error hrun]
        exact hkeep _ rfl rfl rfl (.error e) fun url hurl => by cases hurl
      | ok bytes =>
        rw [bind_of_ok hrun]
        exact lookupOrUpload_outcome services .huly
          (uploadFile_uploads services deps.gitlabClient projectId filename bytes) sourceUrl bytes h

theorem stepCall_recorded (r : MirrorRun) (call : MirrorCall) (h : Recorded r.state) :
    Recorded (stepCall services r call).state := (runCall_outcome services h call).recorded

/-- A URL belongs to one destination. -/
theorem Recorded.destination_eq {s : MirrorState} (h : Recorded s) {url : String}
    {a b : Destination} (ha : (a, url) ∈ s.uploads) (hb : (b, url) ∈ s.uploads) : a = b :=
  (Prod.mk.inj (List.inj_on_of_nodup_map h.urls ha hb rfl)).1

theorem stepCall_ownUrls {r : MirrorRun} {call : MirrorCall} (h : Recorded r.state)
    (hown : OwnUrls r) (hrow : OwnRow services r call) : OwnUrls (stepCall services r call) := by
  have hout := runCall_outcome services h call
  intro entry hentry
  obtain hold | hnew := List.mem_append.mp hentry
  · exact hout.uploads entry (hown entry hold)
  · split at hnew
    · rename_i url hurl
      obtain rfl := List.mem_singleton.mp hnew
      cases hfound : foundWriter services r.state call with
      | none => exact hout.own hfound url hurl
      | some writer =>
        obtain ⟨url', hurl', hmem⟩ := hout.row writer hfound
        obtain rfl : url = url' := by
          rw [hurl] at hurl'
          exact Option.some.inj (Except.ok.inj hurl')
        rw [← hrow writer hfound]
        exact hmem
    · cases hnew

/-- The row of another destination is returned as it is. -/
theorem not_ownUrls_stepCall {r : MirrorRun} {call : MirrorCall} (h : Recorded r.state)
    (hrow : ¬ OwnRow services r call) : ¬ OwnUrls (stepCall services r call) := by
  have hout := runCall_outcome services h call
  intro hown
  apply hrow
  intro writer hfound
  obtain ⟨url, hurl, hmem⟩ := hout.row writer hfound
  have hreturned : (call.destination, url) ∈ (stepCall services r call).returned := by
    apply List.mem_append_right
    rw [hurl]
    exact List.mem_singleton_self _
  exact hout.recorded.destination_eq hmem (hown _ hreturned)

def startRun : MirrorRun := ⟨.empty, []⟩

/-- No URL crosses a tenant boundary exactly when no call finds the row of another tenant. -/
theorem throughout_ownUrls_iff (calls : List MirrorCall) :
    Transition.Throughout (stepCall services) OwnUrls startRun calls ↔
      Transition.Along (stepCall services) (OwnRow services) startRun calls := by
  have hstart : Recorded startRun.state := recorded_empty
  constructor
  · exact Transition.along_of_throughout (I := fun r => Recorded r.state)
      (fun r call => stepCall_recorded services r call)
      (fun r call h _ hrow => not_ownUrls_stepCall services h hrow) hstart
  · intro halong
    apply Transition.throughout_of_along halong
    intro prior hprior
    have hinv : Recorded (Transition.exec (stepCall services) startRun prior).state ∧
        OwnUrls (Transition.exec (stepCall services) startRun prior) := by
      apply Transition.exec_invariant (I := fun r => Recorded r.state ∧ OwnUrls r) _ _ hprior
      · exact fun r call h hrow =>
          ⟨stepCall_recorded services r call h.1, stepCall_ownUrls services h.1 h.2 hrow⟩
      · exact ⟨hstart, fun entry h => absurd h List.not_mem_nil⟩
    exact hinv.2

/-- The second workspace with the same file gets the URL of the first one. -/
theorem not_ownUrls_of_shared_content :
    let client : GitLabClient := ⟨"https://gitlab.com", "token"⟩
    let calls : List MirrorCall :=
      [.gitlabToHuly ⟨"ws1", client⟩ "https://gitlab.com/a/uploads/1a/logo.png" "logo.png",
        .gitlabToHuly ⟨"ws2", client⟩ "https://gitlab.com/b/uploads/2b/logo.png" "logo.png"]
    ¬ Transition.Throughout (stepCall .quiet) OwnUrls startRun calls := by
  intro client calls h
  have hown := Transition.Throughout.last h
  have hfinal : ¬ ∀ entry ∈ (Transition.exec (stepCall .quiet) startRun calls).returned,
      entry ∈ (Transition.exec (stepCall .quiet) startRun calls).state.uploads := by
    decide +kernel
  exact hfinal hown

end Attachments

end HulyGitlab
