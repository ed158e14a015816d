import HulyGitlab.Lib.Registry
import HulyGitlab.Sync.BindingLoader
import HulyGitlab.Sync.Keys

/-!
# The registry of bindings over a run of loads

Every load registers its base URL and then its binding. The second base URL of a
workspace changes the keys of all its entries; the subscriber goes on with the
`Map` it was given, so the entries move inside that object.
-/

namespace HulyGitlab

/-- What a load registers. -/
structure Registration where
  workspaceUuid : String
  gitlabBaseUrl : String
  gitlabProjectId : Int
  bindingId : BindingRef
  deriving DecidableEq

/-- The load is one of the pair. -/
def Registration.Of (workspaceUuid gitlabBaseUrl : String) (gitlabProjectId : Int)
    (x : Registration) : Prop :=
  x.workspaceUuid = workspaceUuid ∧ x.gitlabBaseUrl = gitlabBaseUrl ∧
    x.gitlabProjectId = gitlabProjectId

instance (workspaceUuid gitlabBaseUrl : String) (gitlabProjectId : Int) (x : Registration) :
    Decidable (x.Of workspaceUuid gitlabBaseUrl gitlabProjectId) :=
  inferInstanceAs (Decidable (_ ∧ _ ∧ _))

/-- The binding of the last load of the pair. -/
def lastBinding (loads : List Registration) (workspaceUuid gitlabBaseUrl : String)
    (gitlabProjectId : Int) : Option BindingRef :=
  (loads.reverse.find? fun x => x.Of workspaceUuid gitlabBaseUrl gitlabProjectId).map
    Registration.bindingId

theorem lastBinding_concat (loads : List Registration) (x : Registration)
    (workspaceUuid gitlabBaseUrl : String) (gitlabProjectId : Int) :
    lastBinding (loads ++ [x]) workspaceUuid gitlabBaseUrl gitlabProjectId =
      if x.Of workspaceUuid gitlabBaseUrl gitlabProjectId then some x.bindingId
      else lastBinding loads workspaceUuid gitlabBaseUrl gitlabProjectId := by
  unfold lastBinding
  rw [List.reverse_append, List.reverse_singleton, List.singleton_append]
  by_cases hx : x.Of workspaceUuid gitlabBaseUrl gitlabProjectId
  · rw [if_pos hx, List.find?_cons_of_pos (by simpa using hx)]
    rfl
  · rw [if_neg hx, List.find?_cons_of_neg (by simpa using hx)]

/-- A pair that has a binding was loaded. -/
theorem exists_load_of_lastBinding {loads : List Registration}
    {workspaceUuid gitlabBaseUrl : String} {gitlabProjectId : Int} {b : BindingRef}
    (h : lastBinding loads workspaceUuid gitlabBaseUrl gitlabProjectId = some b) :
    ∃ x ∈ loads, x.Of workspaceUuid gitlabBaseUrl gitlabProjectId := by
  obtain ⟨x, hx, -⟩ := Option.map_eq_some_iff.mp h
  refine ⟨x, List.mem_reverse.mp (List.mem_of_find?_eq_some hx), ?_⟩
  simpa using List.find?_some hx

section Keys

variable {hash8 : String → String}

/-- A composite key names its hash and its project. -/
theorem bindingsByProjectKey_multi_inj {url url' : String} {projectId projectId' : Int}
    (h : bindingsByProjectKey hash8 true url projectId =
      bindingsByProjectKey hash8 true url' projectId') :
    hash8 url = hash8 url' ∧ projectId = projectId' := by
  have hlist := congrArg String.toList h
  unfold bindingsByProjectKey at hlist
  rw [if_pos rfl, if_pos rfl, toList_key, toList_key] at hlist
  have hhash := congrArg beforeLast hlist
  have hid := congrArg lastSegment hlist
  rw [beforeLast_of_not_mem (colon_not_mem_toString _),
    beforeLast_of_not_mem (colon_not_mem_toString _)] at hhash
  rw [lastSegment_of_not_mem (colon_not_mem_toString _),
    lastSegment_of_not_mem (colon_not_mem_toString _)] at hid
  exact ⟨String.toList_inj.mp hhash, toString_int_injective (String.toList_inj.mp hid)⟩

end Keys

namespace BindingLoader

variable (hash8 : String → String)

def load (l : BindingLoader) (x : Registration) : BindingLoader :=
  (l.registerBaseUrl x.workspaceUuid x.gitlabBaseUrl).registerBinding hash8 x.workspaceUuid
    x.gitlabProjectId x.bindingId x.gitlabBaseUrl

/-- The known project id and base URL of each key. -/
def known (l : BindingLoader) (workspaceUuid : String) : OrderedMap String (Int × String) :=
  (l.bindingMetaByWorkspace.get? workspaceUuid).getD .empty

end BindingLoader

section Rekey

variable (hash8 : String → String) (map : OrderedMap String BindingRef)
  (known : OrderedMap String (Int × String))

/-- The composite key of the entry of a key. -/
def movedKey (key : String) : String :=
  match known.get? key with
  | none => key
  | some m => bindingsByProjectKey hash8 true m.2 m.1

/-- Every entry has its project id and its base URL on record. -/
def Documented : Prop := ∀ entry ∈ map.entries, (known.get? entry.1).isSome

/-- Where the entries of a documented map go. -/
structure Moved (rekeyed : BindingLoader.Rekeyed) : Prop where
  bindings : ∀ key b, rekeyed.map.get? key = some b ↔
    ∃ entry ∈ map.entries, movedKey hash8 known entry.1 = key ∧ entry.2 = b
  metas : ∀ key m, rekeyed.known.get? key = some m ↔
    ∃ entry ∈ map.entries, movedKey hash8 known entry.1 = key ∧ known.get? entry.1 = some m
  needsRekey : rekeyed.needsRekey = true ↔
    ∃ entry ∈ map.entries, movedKey hash8 known entry.1 ≠ entry.1

theorem rekeyEntry_of_documented {entry : String × BindingRef} {m : Int × String}
    (h : known.get? entry.1 = some m) (acc : BindingLoader.Rekeyed) :
    BindingLoader.rekeyEntry hash8 known acc entry =
      ⟨acc.map.set (movedKey hash8 known entry.1) entry.2,
        acc.known.set (movedKey hash8 known entry.1) m,
        acc.needsRekey || movedKey hash8 known entry.1 ≠ entry.1⟩ := by
  unfold BindingLoader.rekeyEntry movedKey
  rw [h]

theorem needsRekey_foldl (entries : List (String × BindingRef))
    (hdocumented : ∀ entry ∈ entries, (known.get? entry.1).isSome) (acc : BindingLoader.Rekeyed) :
    (entries.foldl (BindingLoader.rekeyEntry hash8 known) acc).needsRekey = true ↔
      acc.needsRekey = true ∨ ∃ entry ∈ entries, movedKey hash8 known entry.1 ≠ entry.1 := by
  induction entries generalizing acc with
  | nil => simp
  | cons entry entries ih =>
    obtain ⟨m, hm⟩ := Option.isSome_iff_exists.mp (hdocumented entry List.mem_cons_self)
    rw [List.foldl_cons, ih (fun e he => hdocumented e (List.mem_cons_of_mem _ he)),
      rekeyEntry_of_documented hash8 known hm]
    simp [or_assoc]

/-- The entries of a documented map whose composite keys are all different keep their bindings. -/
theorem moved_rekeyed (hdocumented : Documented map known)
    (hnodup : (map.entries.map fun entry => movedKey hash8 known entry.1).Nodup) :
    Moved hash8 map known
      (map.entries.foldl (BindingLoader.rekeyEntry hash8 known) ⟨.empty, .empty, false⟩) := by
  refine ⟨fun key b => ?_, fun key m => ?_, ?_⟩
  · have hround : ∀ acc, ∀ entry ∈ map.entries,
        (BindingLoader.rekeyEntry hash8 known acc entry).map =
          acc.map.set (movedKey hash8 known entry.1) entry.2 := by
      intro acc entry hentry
      obtain ⟨m, hm⟩ := Option.isSome_iff_exists.mp (hdocumented entry hentry)
      rw [rekeyEntry_of_documented hash8 known hm]
    rw [OrderedMap.get?_foldl_insert hround hnodup]
    simp
  · have hround : ∀ acc, ∀ entry ∈ map.entries,
        (BindingLoader.rekeyEntry hash8 known acc entry).known =
          acc.known.set (movedKey hash8 known entry.1) ((known.get? entry.1).getD (0, "")) := by
      intro acc entry hentry
      obtain ⟨m, hm⟩ := Option.isSome_iff_exists.mp (hdocumented entry hentry)
      rw [rekeyEntry_of_documented hash8 known hm, hm, Option.getD_some]
    rw [OrderedMap.get?_foldl_insert hround hnodup]
    simp only [OrderedMap.get?_empty, reduceCtorEq, and_false, or_false]
    refine exists_congr fun entry => and_congr_right fun hentry => and_congr_right fun _ => ?_
    obtain ⟨m', hm'⟩ := Option.isSome_iff_exists.mp (hdocumented entry hentry)
    rw [hm', Option.getD_some, Option.some.injEq]
  · rw [needsRekey_foldl hash8 known map.entries hdocumented]
    simp

end Rekey

section Pairs

variable (hash8 : String → String) (multi : Bool) (loads : List Registration)
  (workspaceUuid : String)

/-- The pairs that were loaded have different keys. -/
def Apart : Prop :=
  ∀ url projectId url' projectId', (lastBinding loads workspaceUuid url projectId).isSome →
    (lastBinding loads workspaceUuid url' projectId').isSome →
    bindingsByProjectKey hash8 multi url projectId =
      bindingsByProjectKey hash8 multi url' projectId' → url = url' ∧ projectId = projectId'

/-- The maps of the workspace have each pair that was loaded under its key, and nothing else. -/
structure Holds (map : OrderedMap String BindingRef) (known : OrderedMap String (Int × String)) :
    Prop where
  bindings : ∀ key b, map.get? key = some b ↔
    ∃ url projectId, lastBinding loads workspaceUuid url projectId = some b ∧
      key = bindingsByProjectKey hash8 multi url projectId
  metas : ∀ key m, known.get? key = some m ↔
    (lastBinding loads workspaceUuid m.2 m.1).isSome ∧
      key = bindingsByProjectKey hash8 multi m.2 m.1

end Pairs

section Holds

variable {hash8 : String → String} {multi : Bool} {loads : List Registration}
  {workspaceUuid : String} {map : OrderedMap String BindingRef}
  {known : OrderedMap String (Int × String)}

theorem Holds.known_of_entry (h : Holds hash8 multi loads workspaceUuid map known)
    {entry : String × BindingRef} (hentry : entry ∈ map.entries) :
    ∃ url projectId, lastBinding loads workspaceUuid url projectId = some entry.2 ∧
      entry.1 = bindingsByProjectKey hash8 multi url projectId ∧
      known.get? entry.1 = some (projectId, url) ∧
      movedKey hash8 known entry.1 = bindingsByProjectKey hash8 true url projectId := by
  obtain ⟨url, projectId, hlast, hkey⟩ :=
    (h.bindings entry.1 entry.2).mp (OrderedMap.get?_of_mem_entries hentry)
  have hknown : known.get? entry.1 = some (projectId, url) :=
    (h.metas _ (projectId, url)).mpr ⟨by rw [hlast]; rfl, hkey⟩
  refine ⟨url, projectId, hlast, hkey, hknown, ?_⟩
  unfold movedKey
  rw [hknown]

theorem Holds.entry (h : Holds hash8 multi loads workspaceUuid map known) {url : String}
    {projectId : Int} {b : BindingRef}
    (hlast : lastBinding loads workspaceUuid url projectId = some b) :
    (bindingsByProjectKey hash8 multi url projectId, b) ∈ map.entries :=
  OrderedMap.mem_entries_of_get? ((h.bindings _ _).mpr ⟨url, projectId, hlast, rfl⟩)

/-- The composite keys of the pairs that were loaded hold what the old keys held. -/
theorem Holds.rekey (h : Holds hash8 multi loads workspaceUuid map known)
    (hapart : Apart hash8 true loads workspaceUuid) :
    Holds hash8 true loads workspaceUuid (BindingLoader.rekey hash8 map known).1
      (BindingLoader.rekey hash8 map known).2 := by
  have hdocumented : Documented map known := by
    intro entry hentry
    obtain ⟨url, projectId, -, -, hknown, -⟩ := h.known_of_entry hentry
    rw [hknown]
    rfl
  have hnodup : (map.entries.map fun entry => movedKey hash8 known entry.1).Nodup := by
    have hkeys : (map.keys.map (movedKey hash8 known)).Nodup := by
      refine List.Nodup.map_on (fun key hkey key' hkey' heq => ?_) map.nodup_keys
      obtain ⟨entry, hentry, rfl⟩ := List.mem_map.mp hkey
      obtain ⟨entry', hentry', rfl⟩ := List.mem_map.mp hkey'
      obtain ⟨url, projectId, hlast, hold, -, hmoved⟩ := h.known_of_entry hentry
      obtain ⟨url', projectId', hlast', hold', -, hmoved'⟩ := h.known_of_entry hentry'
      obtain ⟨rfl, rfl⟩ := hapart url projectId url' projectId' (by rw [hlast]; rfl)
        (by rw [hlast']; rfl) (hmoved.symm.trans (heq.trans hmoved'))
      exact hold.trans hold'.symm
    rwa [OrderedMap.keys, List.map_map] at hkeys
  have hmoved := moved_rekeyed hash8 map known hdocumented hnodup
  unfold BindingLoader.rekey
  by_cases hneeds : (map.entries.foldl (BindingLoader.rekeyEntry hash8 known)
      ⟨.empty, .empty, false⟩).needsRekey = true
  · dsimp only
    rw [if_pos hneeds]
    refine ⟨fun key b => (hmoved.bindings key b).trans ?_,
      fun key m => (hmoved.metas key m).trans ?_⟩
    · constructor
      · rintro ⟨entry, hentry, rfl, rfl⟩
        obtain ⟨url, projectId, hlast, -, -, hkey⟩ := h.known_of_entry hentry
        exact ⟨url, projectId, hlast, hkey⟩
      · rintro ⟨url, projectId, hlast, rfl⟩
        refine ⟨_, h.entry hlast, ?_, rfl⟩
        unfold movedKey
        rw [(h.metas _ (projectId, url)).mpr ⟨by rw [hlast]; rfl, rfl⟩]
    · constructor
      · rintro ⟨entry, hentry, rfl, hm⟩
        obtain ⟨url, projectId, hlast, -, hknown, hkey⟩ := h.known_of_entry hentry
        obtain rfl := Option.some.inj (hknown.symm.trans hm)
        exact ⟨by rw [hlast]; rfl, hkey⟩
      · rintro ⟨hsome, rfl⟩
        obtain ⟨b, hlast⟩ := Option.isSome_iff_exists.mp hsome
        have hknown := (h.metas (bindingsByProjectKey hash8 multi m.2 m.1) m).mpr ⟨hsome, rfl⟩
        refine ⟨_, h.entry hlast, ?_, hknown⟩
        unfold movedKey
        rw [hknown]
  · have hsame : ∀ url projectId, (lastBinding loads workspaceUuid url projectId).isSome →
        bindingsByProjectKey hash8 multi url projectId =
          bindingsByProjectKey hash8 true url projectId := by
      intro url projectId hsome
      obtain ⟨b, hlast⟩ := Option.isSome_iff_exists.mp hsome
      have hknown := (h.metas _ (projectId, url)).mpr ⟨hsome, rfl⟩
      by_contra hne
      refine hneeds (hmoved.needsRekey.mpr ⟨_, h.entry hlast, fun heq => hne ?_⟩)
      unfold movedKey at heq
      rw [hknown] at heq
      exact heq.symm
    dsimp only
    rw [if_neg hneeds]
    refine ⟨fun key b => (h.bindings key b).trans ?_, fun key m => (h.metas key m).trans ?_⟩
    · refine exists_congr fun url => exists_congr fun projectId => and_congr_right fun hlast => ?_
      rw [hsame url projectId (by rw [hlast]; rfl)]
    · exact and_congr_right fun hsome => by rw [hsame m.2 m.1 hsome]

/-- One more binding under the key of its pair. -/
theorem Holds.set (h : Holds hash8 multi loads workspaceUuid map known) {x : Registration}
    (hx : x.workspaceUuid = workspaceUuid)
    (hapart : Apart hash8 multi (loads ++ [x]) workspaceUuid) :
    Holds hash8 multi (loads ++ [x]) workspaceUuid
      (map.set (bindingsByProjectKey hash8 multi x.gitlabBaseUrl x.gitlabProjectId) x.bindingId)
      (known.set (bindingsByProjectKey hash8 multi x.gitlabBaseUrl x.gitlabProjectId)
        (x.gitlabProjectId, x.gitlabBaseUrl)) := by
  have hown : x.Of workspaceUuid x.gitlabBaseUrl x.gitlabProjectId := ⟨hx, rfl, rfl⟩
  have hlast : lastBinding (loads ++ [x]) workspaceUuid x.gitlabBaseUrl x.gitlabProjectId =
      some x.bindingId := by rw [lastBinding_concat, if_pos hown]
  have hother : ∀ url projectId, ¬ x.Of workspaceUuid url projectId →
      (lastBinding loads workspaceUuid url projectId).isSome →
      bindingsByProjectKey hash8 multi url projectId ≠
        bindingsByProjectKey hash8 multi x.gitlabBaseUrl x.gitlabProjectId := by
    intro url projectId hnot hsome heq
    have hsome' : (lastBinding (loads ++ [x]) workspaceUuid url projectId).isSome := by
      rwa [lastBinding_concat, if_neg hnot]
    obtain ⟨rfl, rfl⟩ := hapart _ _ _ _ hsome' (by rw [hlast]; rfl) heq
    exact hnot hown
  constructor
  · intro key b
    rw [OrderedMap.get?_set]
    by_cases hkey : key = bindingsByProjectKey hash8 multi x.gitlabBaseUrl x.gitlabProjectId
    · rw [if_pos hkey]
      constructor
      · rintro hb
        exact ⟨_, _, hlast.trans hb, hkey⟩
      · rintro ⟨url, projectId, hlast', hkey'⟩
        obtain ⟨rfl, rfl⟩ := hapart _ _ _ _ (by rw [hlast']; rfl) (by rw [hlast]; rfl)
          (hkey'.symm.trans hkey)
        exact hlast.symm.trans hlast'
    · rw [if_neg hkey, h.bindings key b]
      refine exists_congr fun url => exists_congr fun projectId => and_congr_left fun hkey' => ?_
      have hnot : ¬ x.Of workspaceUuid url projectId := by
        rintro ⟨-, rfl, rfl⟩
        exact hkey hkey'
      rw [lastBinding_concat, if_neg hnot]
  · intro key m
    rw [OrderedMap.get?_set]
    by_cases hkey : key = bindingsByProjectKey hash8 multi x.gitlabBaseUrl x.gitlabProjectId
    · rw [if_pos hkey]
      constructor
      · rintro hm
        obtain rfl := Option.some.inj hm
        exact ⟨by rw [hlast]; rfl, hkey⟩
      · rintro ⟨hsome, hkey'⟩
        obtain ⟨hurl, hid⟩ := hapart _ _ _ _ hsome (by rw [hlast]; rfl) (hkey'.symm.trans hkey)
        rw [← hurl, ← hid]
    · rw [if_neg hkey, h.metas key m]
      refine and_congr_left fun hkey' => ?_
      have hnot : ¬ x.Of workspaceUuid m.2 m.1 := by
        rintro ⟨-, hurl, hid⟩
        exact hkey (by rw [hurl, hid]; exact hkey')
      rw [lastBinding_concat, if_neg hnot]

theorem lastBinding_of_ne {x : Registration} (hx : x.workspaceUuid ≠ workspaceUuid) (url : String)
    (projectId : Int) : lastBinding (loads ++ [x]) workspaceUuid url projectId =
      lastBinding loads workspaceUuid url projectId := by
  rw [lastBinding_concat, if_neg fun h => hx h.1]

theorem Holds.of_other (h : Holds hash8 multi loads workspaceUuid map known) {x : Registration}
    (hx : x.workspaceUuid ≠ workspaceUuid) :
    Holds hash8 multi (loads ++ [x]) workspaceUuid map known := by
  refine ⟨fun key b => ?_, fun key m => ?_⟩
  · simp only [lastBinding_of_ne hx, h.bindings key b]
  · simp only [lastBinding_of_ne hx, h.metas key m]

end Holds

namespace BindingLoader

variable (hash8 : String → String)

theorem baseUrls_load (l : BindingLoader) (x : Registration) (workspaceUuid : String) :
    (l.load hash8 x).baseUrls workspaceUuid =
      if workspaceUuid = x.workspaceUuid then (l.baseUrls workspaceUuid).add x.gitlabBaseUrl
      else l.baseUrls workspaceUuid :=
  baseUrls_registerBaseUrl l x.workspaceUuid x.gitlabBaseUrl workspaceUuid

/-- The maps of the workspace of a load. -/
theorem maps_load (l : BindingLoader) (x : Registration) :
    let multi := (l.load hash8 x).isMultiInstance x.workspaceUuid
    let map := l.getBindingsByProject x.workspaceUuid
    let known := l.known x.workspaceUuid
    let maps := if multi then rekey hash8 map known else (map, known)
    let key := bindingsByProjectKey hash8 multi x.gitlabBaseUrl x.gitlabProjectId
    (l.load hash8 x).getBindingsByProject x.workspaceUuid = maps.1.set key x.bindingId ∧
      (l.load hash8 x).known x.workspaceUuid =
        maps.2.set key (x.gitlabProjectId, x.gitlabBaseUrl) := by
  constructor
  · unfold load registerBinding
    rw [getBindingsByProject, OrderedMap.get?_set_self, Option.getD_some]
    rfl
  · unfold load registerBinding
    rw [known, OrderedMap.get?_set_self, Option.getD_some]
    rfl

/-- A load leaves the maps of the other workspaces alone. -/
theorem maps_load_of_ne (l : BindingLoader) {x : Registration} {workspaceUuid : String}
    (hx : workspaceUuid ≠ x.workspaceUuid) :
    (l.load hash8 x).getBindingsByProject workspaceUuid = l.getBindingsByProject workspaceUuid ∧
      (l.load hash8 x).known workspaceUuid = l.known workspaceUuid := by
  constructor
  · unfold load registerBinding
    rw [getBindingsByProject, OrderedMap.get?_set_of_ne _ hx]
    rfl
  · unfold load registerBinding
    rw [known, OrderedMap.get?_set_of_ne _ hx]
    rfl

/-- The registries after some loads. -/
def afterLoads (loads : List Registration) : BindingLoader :=
  Transition.exec (load hash8) .empty loads

theorem afterLoads_concat (loads : List Registration) (x : Registration) :
    afterLoads hash8 (loads ++ [x]) = (afterLoads hash8 loads).load hash8 x :=
  Transition.exec_concat _ _ _ _

/-- The base URLs of a workspace are those of its loads. -/
theorem mem_baseUrls_afterLoads (loads : List Registration) (workspaceUuid url : String) :
    url ∈ ((afterLoads hash8 loads).baseUrls workspaceUuid).elems ↔
      ∃ x ∈ loads, x.workspaceUuid = workspaceUuid ∧ x.gitlabBaseUrl = url := by
  induction loads using List.reverseRecOn with
  | nil => simp [afterLoads]
  | append_singleton loads x ih =>
    rw [afterLoads_concat, baseUrls_load]
    simp only [List.mem_append, List.mem_singleton, or_and_right, exists_or, exists_eq_left]
    by_cases hx : workspaceUuid = x.workspaceUuid
    · rw [if_pos hx, OrderedSet.mem_add, ih]
      simp only [hx, true_and, or_comm, eq_comm]
    · rw [if_neg hx, ih]
      simp only [Ne.symm hx, false_and, or_false]

/-- A workspace that has two base URLs keeps them. -/
theorem isMultiInstance_load {l : BindingLoader} {workspaceUuid : String} (x : Registration)
    (h : l.isMultiInstance workspaceUuid = true) :
    (l.load hash8 x).isMultiInstance workspaceUuid = true := by
  have hle : (l.baseUrls workspaceUuid).elems.length ≤
      ((l.load hash8 x).baseUrls workspaceUuid).elems.length := by
    rw [baseUrls_load]
    by_cases hx : workspaceUuid = x.workspaceUuid
    · rw [if_pos hx, OrderedSet.add]
      by_cases hmem : x.gitlabBaseUrl ∈ (l.baseUrls workspaceUuid).elems
      · rw [dif_pos hmem]
      · rw [dif_neg hmem, List.length_append]
        omega
    · rw [if_neg hx]
  have hold := of_decide_eq_true h
  exact decide_eq_true (hold.trans hle)

end BindingLoader

/-- The hash tells the base URLs of the workspace apart. -/
def HashSeparates (hash8 : String → String) (loads : List Registration) (workspaceUuid : String) :
    Prop :=
  ∀ x ∈ loads, ∀ y ∈ loads, x.workspaceUuid = workspaceUuid → y.workspaceUuid = workspaceUuid →
    hash8 x.gitlabBaseUrl = hash8 y.gitlabBaseUrl → x.gitlabBaseUrl = y.gitlabBaseUrl

section Run

variable {hash8 : String → String} {loads : List Registration} {workspaceUuid : String}

theorem HashSeparates.of_prefix {before : List Registration}
    (h : HashSeparates hash8 loads workspaceUuid) (hpre : before <+: loads) :
    HashSeparates hash8 before workspaceUuid :=
  fun x hx y hy => h x (hpre.subset hx) y (hpre.subset hy)

/-- With separated hashes composite keys are different. -/
theorem HashSeparates.apart (h : HashSeparates hash8 loads workspaceUuid) :
    Apart hash8 true loads workspaceUuid := by
  intro url projectId url' projectId' hsome hsome' hkey
  obtain ⟨b, hlast⟩ := Option.isSome_iff_exists.mp hsome
  obtain ⟨b', hlast'⟩ := Option.isSome_iff_exists.mp hsome'
  obtain ⟨x, hx, hws, rfl, rfl⟩ := exists_load_of_lastBinding hlast
  obtain ⟨y, hy, hws', rfl, rfl⟩ := exists_load_of_lastBinding hlast'
  obtain ⟨hhash, hid⟩ := bindingsByProjectKey_multi_inj hkey
  exact ⟨h x hx y hy hws hws' hhash, hid⟩

/-- The keys of the current mode are different. -/
theorem apart_afterLoads (h : HashSeparates hash8 loads workspaceUuid) :
    Apart hash8 ((BindingLoader.afterLoads hash8 loads).isMultiInstance workspaceUuid) loads
      workspaceUuid := by
  cases hmulti : (BindingLoader.afterLoads hash8 loads).isMultiInstance workspaceUuid with
  | true => exact h.apart
  | false =>
    intro url projectId url' projectId' hsome hsome' hkey
    obtain ⟨b, hlast⟩ := Option.isSome_iff_exists.mp hsome
    obtain ⟨b', hlast'⟩ := Option.isSome_iff_exists.mp hsome'
    obtain ⟨x, hx, hws, rfl, rfl⟩ := exists_load_of_lastBinding hlast
    obtain ⟨y, hy, hws', rfl, rfl⟩ := exists_load_of_lastBinding hlast'
    refine ⟨?_, toString_int_injective hkey⟩
    have hmem := (BindingLoader.mem_baseUrls_afterLoads hash8 loads workspaceUuid
      x.gitlabBaseUrl).mpr ⟨x, hx, hws, rfl⟩
    have hmem' := (BindingLoader.mem_baseUrls_afterLoads hash8 loads workspaceUuid
      y.gitlabBaseUrl).mpr ⟨y, hy, hws', rfl⟩
    have hlen := of_decide_eq_false hmulti
    cases hurls : ((BindingLoader.afterLoads hash8 loads).baseUrls workspaceUuid).elems with
    | nil =>
      rw [hurls] at hmem
      exact absurd hmem List.not_mem_nil
    | cons first rest =>
      have hrest : rest = [] := by
        rw [hurls, List.length_cons] at hlen
        exact List.eq_nil_of_length_eq_zero (by omega)
      rw [hurls, hrest, List.mem_singleton] at hmem hmem'
      exact hmem.trans hmem'.symm

/-- After every run of loads the maps hold what was loaded, under the keys of the current mode. -/
theorem holds_afterLoads (h : HashSeparates hash8 loads workspaceUuid) :
    Holds hash8 ((BindingLoader.afterLoads hash8 loads).isMultiInstance workspaceUuid) loads
      workspaceUuid ((BindingLoader.afterLoads hash8 loads).getBindingsByProject workspaceUuid)
      ((BindingLoader.afterLoads hash8 loads).known workspaceUuid) := by
  induction loads using List.reverseRecOn with
  | nil =>
    refine ⟨fun key b => ?_, fun key m => ?_⟩
    · exact iff_of_false (fun hb => by cases hb) (by rintro ⟨url, projectId, hlast, -⟩; cases hlast)
    · exact iff_of_false (fun hm => by cases hm) (by rintro ⟨hsome, -⟩; cases hsome)
  | append_singleton loads x ih =>
    have hbefore := ih (h.of_prefix (List.prefix_append loads [x]))
    have hapart := apart_afterLoads h
    rw [BindingLoader.afterLoads_concat] at hapart ⊢
    by_cases hx : x.workspaceUuid = workspaceUuid
    · subst hx
      obtain ⟨hmap, hknown⟩ := BindingLoader.maps_load hash8
        (BindingLoader.afterLoads hash8 loads) x
      rw [hmap, hknown]
      refine Holds.set ?_ rfl hapart
      cases hmulti : ((BindingLoader.afterLoads hash8 loads).load hash8 x).isMultiInstance
          x.workspaceUuid with
      | true =>
        rw [if_pos rfl]
        exact hbefore.rekey (h.of_prefix (List.prefix_append loads [x])).apart
      | false =>
        have hold : (BindingLoader.afterLoads hash8 loads).isMultiInstance x.workspaceUuid =
            false := by
          by_contra hne
          rw [BindingLoader.isMultiInstance_load hash8 x (eq_true_of_ne_false hne)] at hmulti
          cases hmulti
        rw [hold] at hbefore
        exact hbefore
    · obtain ⟨hmap, hknown⟩ := BindingLoader.maps_load_of_ne hash8
        (BindingLoader.afterLoads hash8 loads) (Ne.symm hx)
      have hmode : ((BindingLoader.afterLoads hash8 loads).load hash8 x).isMultiInstance
          workspaceUuid = (BindingLoader.afterLoads hash8 loads).isMultiInstance workspaceUuid := by
        unfold BindingLoader.isMultiInstance
        rw [BindingLoader.baseUrls_load, if_neg (Ne.symm hx)]
      rw [hmap, hknown, hmode]
      exact hbefore.of_other hx

end Run

/-- The loader with its `Map` objects. A subscriber holds the object of its workspace. -/
structure SharedLoader where
  workspaceBaseUrls : OrderedMap String (OrderedSet String)
  objects : Registry (OrderedMap String BindingRef)
  bindingsByWorkspace : OrderedMap String Nat
  bindingMetaByWorkspace : OrderedMap String (OrderedMap String (Int × String))

namespace SharedLoader

def empty : SharedLoader := ⟨.empty, .empty, .empty, .empty⟩

/-- The object that is handed to the subscriber of a workspace. -/
def getBindingsByProject (l : SharedLoader) (workspaceUuid : String) : Option Nat :=
  l.bindingsByWorkspace.get? workspaceUuid

def contents (l : SharedLoader) (object : Nat) : OrderedMap String BindingRef :=
  (l.objects.get? object).getD .empty

def getOrCreateBindingsByProject (l : SharedLoader) (workspaceUuid : String) :
    Nat × SharedLoader :=
  match l.bindingsByWorkspace.get? workspaceUuid with
  | some existing => (existing, l)
  | none =>
      (l.objects.next,
        { l with
          objects := l.objects.add .empty
          bindingsByWorkspace := l.bindingsByWorkspace.set workspaceUuid l.objects.next })

def baseUrls (l : SharedLoader) (workspaceUuid : String) : OrderedSet String :=
  (l.workspaceBaseUrls.get? workspaceUuid).getD .empty

def isMultiInstance (l : SharedLoader) (workspaceUuid : String) : Bool :=
  2 ≤ (l.baseUrls workspaceUuid).elems.length

def registerBaseUrl (l : SharedLoader) (workspaceUuid gitlabBaseUrl : String) : SharedLoader :=
  { l with
    workspaceBaseUrls :=
      l.workspaceBaseUrls.set workspaceUuid ((l.baseUrls workspaceUuid).add gitlabBaseUrl) }

/-- The object is cleared and filled again when keys change. -/
def registerBinding (hash8 : String → String) (l : SharedLoader) (workspaceUuid : String)
    (gitlabProjectId : Int) (bindingId : BindingRef) (gitlabBaseUrl : String) : SharedLoader :=
  let (object, l) := l.getOrCreateBindingsByProject workspaceUuid
  let map := l.contents object
  let known := (l.bindingMetaByWorkspace.get? workspaceUuid).getD .empty
  let multi := l.isMultiInstance workspaceUuid
  let maps := if multi then BindingLoader.rekey hash8 map known else (map, known)
  let key := bindingsByProjectKey hash8 multi gitlabBaseUrl gitlabProjectId
  { l with
    objects := l.objects.update object (maps.1.set key bindingId)
    bindingMetaByWorkspace := l.bindingMetaByWorkspace.set workspaceUuid
      (maps.2.set key (gitlabProjectId, gitlabBaseUrl)) }

def load (hash8 : String → String) (l : SharedLoader) (x : Registration) : SharedLoader :=
  (l.registerBaseUrl x.workspaceUuid x.gitlabBaseUrl).registerBinding hash8 x.workspaceUuid
    x.gitlabProjectId x.bindingId x.gitlabBaseUrl

def afterLoads (hash8 : String → String) (loads : List Registration) : SharedLoader :=
  Transition.exec (load hash8) .empty loads

/-- The objects hold the maps of a loader without objects; no two workspaces share one. -/
structure Represents (l : SharedLoader) (b : BindingLoader) : Prop where
  baseUrls : l.workspaceBaseUrls = b.workspaceBaseUrls
  metas : l.bindingMetaByWorkspace = b.bindingMetaByWorkspace
  maps : ∀ workspaceUuid, b.bindingsByWorkspace.get? workspaceUuid =
    (l.bindingsByWorkspace.get? workspaceUuid).bind l.objects.get?
  live : ∀ workspaceUuid object, l.bindingsByWorkspace.get? workspaceUuid = some object →
    (l.objects.get? object).isSome
  unshared : ∀ ws ws' object, l.bindingsByWorkspace.get? ws = some object →
    l.bindingsByWorkspace.get? ws' = some object → ws = ws'

theorem represents_empty : Represents .empty .empty :=
  ⟨rfl, rfl, fun _ => rfl, fun _ _ h => absurd h (Option.some_ne_none _).symm,
    fun _ _ _ h => absurd h (Option.some_ne_none _).symm⟩

variable {l : SharedLoader} {b : BindingLoader}

theorem Represents.registerBaseUrl (h : Represents l b) (workspaceUuid gitlabBaseUrl : String) :
    Represents (l.registerBaseUrl workspaceUuid gitlabBaseUrl)
      (b.registerBaseUrl workspaceUuid gitlabBaseUrl) := by
  refine ⟨?_, h.metas, h.maps, h.live, h.unshared⟩
  unfold SharedLoader.registerBaseUrl BindingLoader.registerBaseUrl SharedLoader.baseUrls
    BindingLoader.baseUrls
  rw [h.baseUrls]

/-- The object of a workspace is live and holds its map; another workspace keeps its own. -/
structure Acquired (l : SharedLoader) (b : BindingLoader) (workspaceUuid : String)
    (r : Nat × SharedLoader) : Prop where
  baseUrls : r.2.workspaceBaseUrls = l.workspaceBaseUrls
  metas : r.2.bindingMetaByWorkspace = l.bindingMetaByWorkspace
  own : r.2.bindingsByWorkspace.get? workspaceUuid = some r.1
  live : r.2.objects.get? r.1 = some (b.getBindingsByProject workspaceUuid)
  others : ∀ ws, ws ≠ workspaceUuid →
    r.2.bindingsByWorkspace.get? ws = l.bindingsByWorkspace.get? ws ∧
      ∀ object, l.bindingsByWorkspace.get? ws = some object →
        r.2.objects.get? object = l.objects.get? object ∧ object ≠ r.1

theorem Represents.acquired (h : Represents l b) (workspaceUuid : String) :
    Acquired l b workspaceUuid (l.getOrCreateBindingsByProject workspaceUuid) := by
  have hmap := h.maps workspaceUuid
  unfold getOrCreateBindingsByProject
  cases hget : l.bindingsByWorkspace.get? workspaceUuid with
  | some existing =>
    obtain ⟨map, hlive⟩ := Option.isSome_iff_exists.mp (h.live _ _ hget)
    rw [hget, Option.bind_some, hlive] at hmap
    refine ⟨rfl, rfl, hget, ?_, fun ws hne => ⟨rfl, fun object hobject => ⟨rfl, ?_⟩⟩⟩
    · rw [BindingLoader.getBindingsByProject, hmap]
      exact hlive
    · rintro rfl
      exact hne (h.unshared _ _ _ hobject hget)
  | none =>
    rw [hget, Option.bind_none] at hmap
    refine ⟨rfl, rfl, OrderedMap.get?_set_self _ _ _, ?_, fun ws hne =>
      ⟨OrderedMap.get?_set_of_ne _ hne _, fun object hobject => ?_⟩⟩
    · rw [BindingLoader.getBindingsByProject, hmap]
      exact Registry.get?_add_next _ _
    · obtain ⟨map, hlive⟩ := Option.isSome_iff_exists.mp (h.live _ _ hobject)
      exact ⟨(Registry.get?_add_of_some hlive _).trans hlive.symm,
        Nat.ne_of_lt (Registry.lt_next_of_get? hlive)⟩

/-- Asking for the object of a workspace replaces none. -/
theorem getOrCreateBindingsByProject_keeps (workspaceUuid : String) {ws : String} {object : Nat}
    (h : l.getBindingsByProject ws = some object) :
    (l.getOrCreateBindingsByProject workspaceUuid).2.bindingsByWorkspace.get? ws =
      some object := by
  rw [getBindingsByProject] at h
  unfold getOrCreateBindingsByProject
  cases hget : l.bindingsByWorkspace.get? workspaceUuid with
  | some existing => exact h
  | none =>
    have hne : ws ≠ workspaceUuid := by
      rintro rfl
      cases h.symm.trans hget
    exact (OrderedMap.get?_set_of_ne _ hne _).trans h

section Replace

variable {l' : SharedLoader} {workspaceUuid : String} {object : Nat}

theorem Acquired.unshared (ha : Acquired l b workspaceUuid (object, l')) {ws : String}
    (hne : ws ≠ workspaceUuid) (h : l'.bindingsByWorkspace.get? ws = some object) : False := by
  obtain ⟨hsame, hobjects⟩ := ha.others ws hne
  rw [hsame] at h
  exact (hobjects object h).2 rfl

/-- Another map in the object of a workspace is another map of that workspace alone. -/
theorem Represents.replace (h : Represents l b) (ha : Acquired l b workspaceUuid (object, l'))
    (map : OrderedMap String BindingRef)
    (metas : OrderedMap String (OrderedMap String (Int × String))) :
    Represents
      { l' with objects := l'.objects.update object map, bindingMetaByWorkspace := metas }
      { b with
        bindingsByWorkspace := b.bindingsByWorkspace.set workspaceUuid map
        bindingMetaByWorkspace := metas } where
  baseUrls := ha.baseUrls.trans h.baseUrls
  metas := rfl
  maps ws := by
    dsimp only
    rw [OrderedMap.get?_set]
    by_cases hws : ws = workspaceUuid
    · subst hws
      rw [if_pos rfl, ha.own, Option.bind_some, Registry.get?_update ha.live, if_pos rfl]
    · obtain ⟨hsame, hobjects⟩ := ha.others ws hws
      rw [if_neg hws, hsame, h.maps ws]
      cases hget : l.bindingsByWorkspace.get? ws with
      | none => rfl
      | some other =>
        obtain ⟨hunchanged, hne⟩ := hobjects other hget
        rw [Option.bind_some, Option.bind_some, Registry.get?_update ha.live, if_neg hne,
          hunchanged]
  live ws other hother := by
    dsimp only at hother ⊢
    rw [Registry.get?_update ha.live]
    by_cases hsame : other = object
    · rw [if_pos hsame]
      rfl
    · rw [if_neg hsame]
      by_cases hws : ws = workspaceUuid
      · subst hws
        exact absurd (Option.some.inj (hother.symm.trans ha.own)) hsame
      · obtain ⟨hold, hobjects⟩ := ha.others ws hws
        rw [hold] at hother
        rw [(hobjects other hother).1]
        exact h.live ws other hother
  unshared ws ws' other ho ho' := by
    dsimp only at ho ho'
    by_cases hws : ws = workspaceUuid
    · by_cases hws' : ws' = workspaceUuid
      · exact hws.trans hws'.symm
      · rw [hws, ha.own] at ho
        cases ho
        exact (ha.unshared hws' ho').elim
    · by_cases hws' : ws' = workspaceUuid
      · rw [hws', ha.own] at ho'
        cases ho'
        exact (ha.unshared hws ho).elim
      · rw [(ha.others ws hws).1] at ho
        rw [(ha.others ws' hws').1] at ho'
        exact h.unshared ws ws' other ho ho'

end Replace

/-- A registration does to the objects what it does to the maps, and no object is replaced. -/
theorem Represents.registerBinding (h : Represents l b) (hash8 : String → String)
    (workspaceUuid : String) (gitlabProjectId : Int) (bindingId : BindingRef)
    (gitlabBaseUrl : String) :
    Represents
        (l.registerBinding hash8 workspaceUuid gitlabProjectId bindingId gitlabBaseUrl)
        (b.registerBinding hash8 workspaceUuid gitlabProjectId bindingId gitlabBaseUrl) ∧
      (∃ object, (l.registerBinding hash8 workspaceUuid gitlabProjectId bindingId
        gitlabBaseUrl).getBindingsByProject workspaceUuid = some object) ∧
      ∀ ws object, l.getBindingsByProject ws = some object →
        (l.registerBinding hash8 workspaceUuid gitlabProjectId bindingId
          gitlabBaseUrl).getBindingsByProject ws = some object := by
  have hacquired := h.acquired workspaceUuid
  have hkept : ∀ ws object, l.getBindingsByProject ws = some object →
      (l.getOrCreateBindingsByProject workspaceUuid).2.bindingsByWorkspace.get? ws =
        some object := fun _ _ => getOrCreateBindingsByProject_keeps workspaceUuid
  unfold SharedLoader.registerBinding
  generalize l.getOrCreateBindingsByProject workspaceUuid = r at hacquired hkept ⊢
  obtain ⟨object, l'⟩ := r
  have hcontents : l'.contents object = b.getBindingsByProject workspaceUuid := by
    rw [contents, hacquired.live, Option.getD_some]
  have hmulti : l'.isMultiInstance workspaceUuid = b.isMultiInstance workspaceUuid := by
    unfold SharedLoader.isMultiInstance BindingLoader.isMultiInstance SharedLoader.baseUrls
      BindingLoader.baseUrls
    rw [hacquired.baseUrls, h.baseUrls]
  have hmetas : l'.bindingMetaByWorkspace = b.bindingMetaByWorkspace :=
    hacquired.metas.trans h.metas
  dsimp only
  rw [hcontents, hmulti, hmetas]
  exact ⟨h.replace hacquired _ _, ⟨object, hacquired.own⟩, hkept⟩

theorem Represents.load (h : Represents l b) (hash8 : String → String) (x : Registration) :
    Represents (l.load hash8 x) (b.load hash8 x) :=
  ((h.registerBaseUrl x.workspaceUuid x.gitlabBaseUrl).registerBinding hash8 x.workspaceUuid
    x.gitlabProjectId x.bindingId x.gitlabBaseUrl).1

theorem represents_afterLoads (hash8 : String → String) (loads : List Registration) :
    Represents (afterLoads hash8 loads) (BindingLoader.afterLoads hash8 loads) := by
  induction loads using List.reverseRecOn with
  | nil => exact represents_empty
  | append_singleton loads x ih =>
    rw [BindingLoader.afterLoads_concat, afterLoads, Transition.exec_concat]
    exact ih.load hash8 x

/-- The object of a workspace stays the one that was handed out. -/
theorem getBindingsByProject_of_prefix {hash8 : String → String} {before loads : List Registration}
    (hpre : before <+: loads) {workspaceUuid : String} {object : Nat}
    (h : (afterLoads hash8 before).getBindingsByProject workspaceUuid = some object) :
    (afterLoads hash8 loads).getBindingsByProject workspaceUuid = some object := by
  obtain ⟨after, rfl⟩ := hpre
  induction after using List.reverseRecOn with
  | nil => rwa [List.append_nil]
  | append_singleton after x ih =>
    rw [← List.append_assoc, afterLoads, Transition.exec_concat]
    have hrep := (represents_afterLoads hash8 (before ++ after)).registerBaseUrl x.workspaceUuid
      x.gitlabBaseUrl
    exact (hrep.registerBinding hash8 x.workspaceUuid x.gitlabProjectId x.bindingId
      x.gitlabBaseUrl).2.2 workspaceUuid object ih

/-- A workspace that was loaded has an object. -/
theorem exists_object (hash8 : String → String) {loads : List Registration} {x : Registration}
    (hx : x ∈ loads) :
    ∃ object, (afterLoads hash8 loads).getBindingsByProject x.workspaceUuid = some object := by
  obtain ⟨before, after, rfl⟩ := List.append_of_mem hx
  have hrep := (represents_afterLoads hash8 before).registerBaseUrl x.workspaceUuid x.gitlabBaseUrl
  obtain ⟨object, hobject⟩ := (hrep.registerBinding hash8 x.workspaceUuid
    x.gitlabProjectId x.bindingId x.gitlabBaseUrl).2.1
  have hpre : before ++ [x] <+: before ++ x :: after :=
    ⟨after, by rw [List.append_assoc, List.singleton_append]⟩
  refine ⟨object, getBindingsByProject_of_prefix hpre ?_⟩
  rw [afterLoads, Transition.exec_concat]
  exact hobject

/-- The object has one entry for each pair that was loaded, under the key of the current mode and
with the binding of its last load. -/
structure Follows (hash8 : String → String) (loads : List Registration) (workspaceUuid : String)
    (l : SharedLoader) (object : Nat) : Prop where
  same : l.getBindingsByProject workspaceUuid = some object
  entries : ∀ key b, (l.contents object).get? key = some b ↔
    ∃ url projectId, lastBinding loads workspaceUuid url projectId = some b ∧
      key = bindingsByProjectKey hash8 (l.isMultiInstance workspaceUuid) url projectId
  apart : Apart hash8 (l.isMultiInstance workspaceUuid) loads workspaceUuid

/-- Whatever was loaded before, in whatever order, the object that the subscriber of the workspace
was given follows the loads. -/
theorem follows_afterLoads (hash8 : String → String) (loads : List Registration)
    (workspaceUuid : String) (h : HashSeparates hash8 loads workspaceUuid)
    (before : List Registration) (hpre : before <+: loads)
    (hloaded : ∃ x ∈ before, x.workspaceUuid = workspaceUuid) :
    ∃ object, (afterLoads hash8 before).getBindingsByProject workspaceUuid = some object ∧
      Follows hash8 loads workspaceUuid (afterLoads hash8 loads) object := by
  obtain ⟨x, hx, rfl⟩ := hloaded
  obtain ⟨object, hobject⟩ := exists_object hash8 hx
  have hsame := getBindingsByProject_of_prefix hpre hobject
  have hrep := represents_afterLoads hash8 loads
  have hcontents : (afterLoads hash8 loads).contents object =
      (BindingLoader.afterLoads hash8 loads).getBindingsByProject x.workspaceUuid := by
    have hmap := hrep.maps x.workspaceUuid
    obtain ⟨map, hlive⟩ := Option.isSome_iff_exists.mp (hrep.live _ _ hsame)
    rw [getBindingsByProject] at hsame
    rw [hsame, Option.bind_some, hlive] at hmap
    rw [contents, hlive, BindingLoader.getBindingsByProject, hmap]
  have hmode : (afterLoads hash8 loads).isMultiInstance x.workspaceUuid =
      (BindingLoader.afterLoads hash8 loads).isMultiInstance x.workspaceUuid := by
    unfold isMultiInstance BindingLoader.isMultiInstance baseUrls BindingLoader.baseUrls
    rw [hrep.baseUrls]
  refine ⟨object, hobject, hsame, ?_, ?_⟩
  · rw [hcontents, hmode]
    exact (holds_afterLoads h).bindings
  · rw [hmode]
    exact apart_afterLoads h

/-- Two instances with the same project id, and the first binding replaced in between. -/
def twoInstances : List Registration :=
  [⟨"ws", "https://gitlab.com", 7, "b"⟩, ⟨"ws", "https://gitlab.com", 7, "b'"⟩,
    ⟨"ws", "https://gitlab.example", 7, "c"⟩]

theorem follows_afterLoads_twoInstances :
    ∃ object, (afterLoads id (twoInstances.take 1)).getBindingsByProject "ws" = some object ∧
      Follows id twoInstances "ws" (afterLoads id twoInstances) object :=
  follows_afterLoads id twoInstances "ws" (fun _ _ _ _ _ _ h => h) (twoInstances.take 1)
    (List.take_prefix 1 twoInstances) ⟨_, List.mem_cons_self, rfl⟩

example : ((afterLoads id twoInstances).contents 0).entries =
    [("https://gitlab.com:7", "b'"), ("https://gitlab.example:7", "c")] := by
  decide +kernel

end SharedLoader

end HulyGitlab
