/-!
# Collections served in pages

A request with the token of a page answers with its items and the token of
the next page. A loop that follows the tokens collects the items of every page.
-/

namespace HulyGitlab.Paging

variable {T E R S : Type}

/-- The items of a page, and the token of the page after it. -/
abbrev Fetch (T E R : Type) := T → Except E (List R × Option T)

/-- Follow the tokens from a page on; `none` when the fuel is used up before the last page. -/
def collect (fetch : Fetch T E R) : Nat → Option T → List R → Option (Except E (List R))
  | _, none, results => some (.ok results)
  | 0, some _, _ => none
  | fuel + 1, some token, results =>
      match fetch token with
      | .error e => some (.error e)
      | .ok (items, next) => collect fetch fuel next (results ++ items)

/-- The pages that the tokens lead through, up to a page without a next one. -/
inductive Chain (fetch : Fetch T E R) : Option T → List (List R) → Prop
  | last : Chain fetch none []
  | page {token : T} {items : List R} {next : Option T} {pages : List (List R)}
      (h : fetch token = .ok (items, next)) (tail : Chain fetch next pages) :
      Chain fetch (some token) (items :: pages)

variable {fetch : Fetch T E R}

/-- With fuel for every page of a chain, the loop returns their items in order. -/
theorem collect_of_chain {start : Option T} {pages : List (List R)}
    (h : Chain fetch start pages) {fuel : Nat} (hfuel : pages.length ≤ fuel) (results : List R) :
    collect fetch fuel start results = some (.ok (results ++ pages.flatten)) := by
  induction h generalizing fuel results with
  | last =>
    rw [collect, List.flatten_nil, List.append_nil]
  | @page token items next pages hpage tail ih =>
    obtain ⟨fuel, rfl⟩ : ∃ n, fuel = n + 1 := by
      rw [List.length_cons] at hfuel
      exact ⟨fuel - 1, by omega⟩
    have hrest : pages.length ≤ fuel := Nat.le_of_succ_le_succ hfuel
    rw [collect, hpage]
    dsimp only
    rw [ih hrest, List.flatten_cons, List.append_assoc]

/-- Pages that are numbered, each answering with the number of the next one, form a chain. -/
theorem chain_drop (fetch : Fetch T E R) (pages : List (List R)) (token : Nat → T)
    (h : ∀ k items, pages[k]? = some items →
      fetch (token k) = .ok (items, if k + 1 < pages.length then some (token (k + 1)) else none))
    {k : Nat} (hk : k < pages.length) : Chain fetch (some (token k)) (pages.drop k) := by
  generalize hleft : pages.length - k = left
  induction left generalizing k with
  | zero => omega
  | succ left ih =>
    have hpage := h k pages[k] (List.getElem?_eq_getElem hk)
    rw [List.drop_eq_getElem_cons hk]
    by_cases hmore : k + 1 < pages.length
    · rw [if_pos hmore] at hpage
      exact .page hpage (ih hmore (by omega))
    · rw [if_neg hmore] at hpage
      rw [List.drop_eq_nil_of_le (Nat.le_of_not_lt hmore)]
      exact .page hpage .last

/-- Mapping the items of each page as it is fetched. -/
def mapItems (f : R → Option S) (fetch : Fetch T E R) : Fetch T E S := fun token =>
  (fetch token).map fun page => (page.1.filterMap f, page.2)

theorem Chain.mapItems (f : R → Option S) {start : Option T} {pages : List (List R)}
    (h : Chain fetch start pages) :
    Chain (Paging.mapItems f fetch) start (pages.map (List.filterMap f)) := by
  induction h with
  | last => exact .last
  | page hpage _ ih =>
    refine .page ?_ ih
    rw [Paging.mapItems, hpage]
    rfl

/-- The loop returns what is kept of all the items of a chain. -/
theorem collect_mapItems (f : R → Option S) {start : Option T} {pages : List (List R)}
    (h : Chain fetch start pages) {fuel : Nat} (hfuel : pages.length ≤ fuel) :
    collect (mapItems f fetch) fuel start [] = some (.ok (pages.flatten.filterMap f)) := by
  have hlength : (pages.map (List.filterMap f)).length ≤ fuel := by
    rw [List.length_map]
    exact hfuel
  rw [collect_of_chain (h.mapItems f) hlength, List.nil_append, List.filterMap_flatten]

end HulyGitlab.Paging
