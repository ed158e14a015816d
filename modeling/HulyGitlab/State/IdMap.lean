import HulyGitlab.Js
import Mathlib.Data.List.Nodup

/-!
# The id map

The `idmap` collection with its two unique indexes: one row for each GitLab
object and one for each Huly document of a workspace.
-/

namespace HulyGitlab

/-- A Huly document id. -/
abbrev Ref := String

inductive GitlabKind
  | issue
  | note
  | user
  | label
  | milestone
  | project
  | merge_request
  | pipeline
  | review_thread
  | epic
  | iteration
  | approval_rule
  deriving DecidableEq

structure IdMapDoc where
  workspaceUuid : String
  gitlabKind : GitlabKind
  gitlabId : String
  hulyClass : String
  hulyRef : Ref
  deriving DecidableEq

namespace IdMapDoc

/-- The key of the index `idmap_gitlab_direction`. -/
def gitlabKey (row : IdMapDoc) : String × GitlabKind × String :=
  (row.workspaceUuid, row.gitlabKind, row.gitlabId)

/-- The key of the index `idmap_huly_direction`. -/
def hulyKey (row : IdMapDoc) : String × String × Ref :=
  (row.workspaceUuid, row.hulyClass, row.hulyRef)

end IdMapDoc

/-- The collection; both indexes are unique. -/
structure IdMap where
  rows : List IdMapDoc
  gitlab_direction : (rows.map IdMapDoc.gitlabKey).Nodup
  huly_direction : (rows.map IdMapDoc.hulyKey).Nodup

namespace IdMap

@[ext] theorem ext {m n : IdMap} (h : m.rows = n.rows) : m = n := by
  cases m
  cases n
  simpa using h

instance : DecidableEq IdMap := fun m n => decidable_of_iff (m.rows = n.rows) ⟨ext, fun h => h ▸ rfl⟩

def empty : IdMap := ⟨[], List.nodup_nil, List.nodup_nil⟩

/-- A collection of one row. -/
def single (row : IdMapDoc) : IdMap :=
  ⟨[row], List.nodup_singleton _, List.nodup_singleton _⟩

instance : Inhabited IdMap := ⟨empty⟩

def findByGitlab (m : IdMap) (workspaceUuid : String) (gitlabKind : GitlabKind)
    (gitlabId : String) : Option IdMapDoc :=
  m.rows.find? fun row => row.gitlabKey = (workspaceUuid, gitlabKind, gitlabId)

def findByHuly (m : IdMap) (workspaceUuid hulyClass : String) (hulyRef : Ref) :
    Option IdMapDoc :=
  m.rows.find? fun row => row.hulyKey = (workspaceUuid, hulyClass, hulyRef)

/-- Another GitLab object is mapped to the document. -/
def Conflicts (m : IdMap) (doc : IdMapDoc) : Prop :=
  ∃ row ∈ m.rows, row.hulyKey = doc.hulyKey ∧ row.gitlabKey ≠ doc.gitlabKey

instance (m : IdMap) (doc : IdMapDoc) : Decidable (m.Conflicts doc) :=
  inferInstanceAs (Decidable (∃ row ∈ m.rows, _ ∧ _))

/-- The rows after `updateOne` with `upsert: true` by the GitLab key. -/
def upsertRows (doc : IdMapDoc) (rows : List IdMapDoc) : List IdMapDoc :=
  if doc.gitlabKey ∈ rows.map IdMapDoc.gitlabKey then
    rows.map fun row => if row.gitlabKey = doc.gitlabKey then doc else row
  else
    rows ++ [doc]

theorem mem_upsertRows (doc row : IdMapDoc) (rows : List IdMapDoc) :
    row ∈ upsertRows doc rows ↔ row = doc ∨ row ∈ rows ∧ row.gitlabKey ≠ doc.gitlabKey := by
  by_cases h : doc.gitlabKey ∈ rows.map IdMapDoc.gitlabKey
  · obtain ⟨old, hmem, hkey⟩ := List.mem_map.mp h
    rw [upsertRows, if_pos h, List.mem_map]
    constructor
    · rintro ⟨r, hr, rfl⟩
      by_cases hk : r.gitlabKey = doc.gitlabKey
      · exact .inl (if_pos hk)
      · rw [if_neg hk]
        exact .inr ⟨hr, hk⟩
    · rintro (rfl | ⟨hr, hk⟩)
      · exact ⟨old, hmem, if_pos hkey⟩
      · exact ⟨row, hr, if_neg hk⟩
  · rw [upsertRows, if_neg h, List.mem_append, List.mem_singleton]
    constructor
    · rintro (hr | rfl)
      · exact .inr ⟨hr, fun hk => h (hk ▸ List.mem_map_of_mem hr)⟩
      · exact .inl rfl
    · rintro (rfl | ⟨hr, -⟩)
      · exact .inr rfl
      · exact .inl hr

theorem nodup_gitlabKey_upsertRows {doc : IdMapDoc} {rows : List IdMapDoc}
    (h : (rows.map IdMapDoc.gitlabKey).Nodup) :
    ((upsertRows doc rows).map IdMapDoc.gitlabKey).Nodup := by
  by_cases hmem : doc.gitlabKey ∈ rows.map IdMapDoc.gitlabKey
  · have hkeys : (rows.map fun row => if row.gitlabKey = doc.gitlabKey then doc else row).map
        IdMapDoc.gitlabKey = rows.map IdMapDoc.gitlabKey := by
      rw [List.map_map]
      apply List.map_congr_left
      intro row _
      by_cases hk : row.gitlabKey = doc.gitlabKey <;> simp [hk]
    rw [upsertRows, if_pos hmem, hkeys]
    exact h
  · rw [upsertRows, if_neg hmem, List.map_append, List.map_singleton]
    apply List.Nodup.append h (List.nodup_singleton _)
    simpa using hmem

theorem nodup_hulyKey_upsertRows {m : IdMap} {doc : IdMapDoc} (h : ¬ m.Conflicts doc) :
    ((upsertRows doc m.rows).map IdMapDoc.hulyKey).Nodup := by
  refine List.Nodup.map_on ?_ (List.Nodup.of_map _ (nodup_gitlabKey_upsertRows m.gitlab_direction))
  intro a ha b hb hab
  rw [mem_upsertRows] at ha hb
  obtain rfl | ⟨ha, hka⟩ := ha
  · obtain rfl | ⟨hb, hkb⟩ := hb
    · rfl
    · exact absurd ⟨b, hb, hab.symm, hkb⟩ h
  · obtain rfl | ⟨hb, -⟩ := hb
    · exact absurd ⟨a, ha, hab, hka⟩ h
    · exact List.inj_on_of_nodup_map m.huly_direction ha hb hab

/-- `upsertIdMap`; the unique index on the Huly side may refuse the row. -/
def upsert (m : IdMap) (doc : IdMapDoc) : Except Err IdMap :=
  if h : m.Conflicts doc then
    .error .duplicateKey
  else
    .ok ⟨upsertRows doc m.rows, nodup_gitlabKey_upsertRows m.gitlab_direction,
      nodup_hulyKey_upsertRows h⟩

theorem upsert_of_not_conflicts {m : IdMap} {doc : IdMapDoc} (h : ¬ m.Conflicts doc) :
    ∃ n, m.upsert doc = .ok n ∧
      ∀ row, row ∈ n.rows ↔ row = doc ∨ row ∈ m.rows ∧ row.gitlabKey ≠ doc.gitlabKey :=
  ⟨_, dif_neg h, fun row => mem_upsertRows doc row m.rows⟩

theorem mem_of_upsert {m n : IdMap} {doc row : IdMapDoc} (h : m.upsert doc = .ok n) :
    row ∈ n.rows ↔ row = doc ∨ row ∈ m.rows ∧ row.gitlabKey ≠ doc.gitlabKey := by
  by_cases hc : m.Conflicts doc
  · simp [upsert, hc] at h
  · obtain ⟨n', hn', hrows⟩ := upsert_of_not_conflicts hc
    rw [hn'] at h
    cases h
    exact hrows row

theorem eq_of_gitlabKey {m : IdMap} {a b : IdMapDoc} (ha : a ∈ m.rows) (hb : b ∈ m.rows)
    (h : a.gitlabKey = b.gitlabKey) : a = b :=
  List.inj_on_of_nodup_map m.gitlab_direction ha hb h

theorem eq_of_hulyKey {m : IdMap} {a b : IdMapDoc} (ha : a ∈ m.rows) (hb : b ∈ m.rows)
    (h : a.hulyKey = b.hulyKey) : a = b :=
  List.inj_on_of_nodup_map m.huly_direction ha hb h

theorem findByGitlab_eq_some_iff {m : IdMap} {workspaceUuid gitlabId : String}
    {gitlabKind : GitlabKind} {row : IdMapDoc} :
    m.findByGitlab workspaceUuid gitlabKind gitlabId = some row ↔
      row ∈ m.rows ∧ row.gitlabKey = (workspaceUuid, gitlabKind, gitlabId) := by
  constructor
  · intro h
    exact ⟨List.mem_of_find?_eq_some h, by simpa using List.find?_some h⟩
  · rintro ⟨hmem, hkey⟩
    cases hf : m.findByGitlab workspaceUuid gitlabKind gitlabId with
    | none => simpa [hkey] using List.find?_eq_none.mp hf row hmem
    | some found =>
      have hfound : found.gitlabKey = (workspaceUuid, gitlabKind, gitlabId) := by
        simpa using List.find?_some hf
      rw [eq_of_gitlabKey (List.mem_of_find?_eq_some hf) hmem (hfound.trans hkey.symm)]

theorem findByHuly_eq_some_iff {m : IdMap} {workspaceUuid hulyClass : String} {hulyRef : Ref}
    {row : IdMapDoc} :
    m.findByHuly workspaceUuid hulyClass hulyRef = some row ↔
      row ∈ m.rows ∧ row.hulyKey = (workspaceUuid, hulyClass, hulyRef) := by
  constructor
  · intro h
    exact ⟨List.mem_of_find?_eq_some h, by simpa using List.find?_some h⟩
  · rintro ⟨hmem, hkey⟩
    cases hf : m.findByHuly workspaceUuid hulyClass hulyRef with
    | none => simpa [hkey] using List.find?_eq_none.mp hf row hmem
    | some found =>
      have hfound : found.hulyKey = (workspaceUuid, hulyClass, hulyRef) := by
        simpa using List.find?_some hf
      rw [eq_of_hulyKey (List.mem_of_find?_eq_some hf) hmem (hfound.trans hkey.symm)]

theorem findByGitlab_of_upsert_self {m n : IdMap} {doc : IdMapDoc} (h : m.upsert doc = .ok n) :
    n.findByGitlab doc.workspaceUuid doc.gitlabKind doc.gitlabId = some doc := by
  rw [findByGitlab_eq_some_iff, mem_of_upsert h]
  exact ⟨.inl rfl, rfl⟩

theorem findByGitlab_of_upsert {m n : IdMap} {doc : IdMapDoc} (h : m.upsert doc = .ok n)
    {workspaceUuid gitlabId : String} {gitlabKind : GitlabKind}
    (hne : doc.gitlabKey ≠ (workspaceUuid, gitlabKind, gitlabId)) :
    n.findByGitlab workspaceUuid gitlabKind gitlabId =
      m.findByGitlab workspaceUuid gitlabKind gitlabId := by
  apply Option.ext
  intro row
  rw [findByGitlab_eq_some_iff, findByGitlab_eq_some_iff, mem_of_upsert h]
  constructor
  · rintro ⟨rfl | ⟨hrow, -⟩, hkey⟩
    · exact absurd hkey hne
    · exact ⟨hrow, hkey⟩
  · rintro ⟨hrow, hkey⟩
    exact ⟨.inr ⟨hrow, fun hdoc => hne (hdoc ▸ hkey)⟩, hkey⟩

end IdMap

end HulyGitlab
