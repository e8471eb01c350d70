import Mathlib.Data.List.Basic
import Mathlib.Tactic.Common
import ToolchainHost.Proofs.Tree
import ToolchainHost.Site

/-!
# The site stays in its directory

* `Site.relative_ne_empty`, `head?_relative`: a URL path is taken from the directory, never from the root.
* `Site.exists_resolve_iff`: the URL paths that stand for a path.
* `Site.resolve_names`: the path goes through names only, and through one at least.
* `Site.Truthful`: a reader that gives what a tree has.
* `site_confined`: what is answered is in the directory.
-/

namespace ToolchainHost

namespace Site

variable {root url path : String} {names place base : List String} {contents : List UInt8} {world : Tree}
  {reader : String → Option (List UInt8)}

/-! ### Relative paths -/

lemma relative_cases (url : String) :
    relative url = "index.html" ∨
      relative url ≠ "" ∧ (relative url).toList = url.toList.dropWhile (· == '/') := by
  unfold relative
  dsimp only
  split_ifs with h
  · exact .inl rfl
  · exact .inr ⟨h, String.toList_ofList⟩

lemma relative_ne_empty (url : String) : relative url ≠ "" := by
  obtain h | h := relative_cases url
  · rw [h]
    decide
  · exact h.1

lemma head?_relative (url : String) : (relative url).toList.head? ≠ some '/' := by
  obtain h | h := relative_cases url
  · rw [h]
    decide
  · rw [h.2]
    intro hc
    have := List.head?_dropWhile_not (· == '/') url.toList
    rw [hc] at this
    cases this

lemma mem_relative {c : Char} (hc : c ∉ "index.html".toList) (h : c ∈ (relative url).toList) :
    c ∈ url.toList := by
  obtain hr | hr := relative_cases url
  · rw [hr] at h
    exact absurd h hc
  · rw [hr.2] at h
    exact (List.dropWhile_sublist _).subset h

/-! ### Paths that are refused -/

lemma eq_map_name {components : List Component} (h : components.all (·.name?.isSome)) :
    ∃ names : List String, components = names.map .name := by
  induction components with
  | nil => exact ⟨[], rfl⟩
  | cons c components ih =>
    rw [List.all_cons, Bool.and_eq_true] at h
    obtain ⟨names, rfl⟩ := ih h.2
    cases c with
    | name text => exact ⟨text :: names, rfl⟩
    | root => cases h.1
    | here => cases h.1
    | up => cases h.1

/-- A path that starts with a dot says so first. -/
lemma start_relative (h : (components (relative url)).head? ≠ some .here) : start (relative url).toList = [] := by
  obtain hs | hs | hs := start_cases (relative url).toList
  · unfold start at hs
    rw [if_neg (head?_relative url)] at hs
    split_ifs at hs
    cases hs
  · rw [components, hs] at h
    exact absurd rfl h
  · exact hs

/-- **The URL paths that stand for a path** neither go up nor start with a dot. -/
theorem exists_resolve_iff (root url : String) :
    (∃ path, resolve root url = some path) ↔
      .up ∉ components (relative url) ∧ (components (relative url)).head? ≠ some .here := by
  have hsome : (∃ path, resolve root url = some path) ↔ (components (relative url)).all (·.name?.isSome) := by
    unfold resolve
    split_ifs with hall
    · exact iff_of_true ⟨_, rfl⟩ hall
    · exact iff_of_false (fun ⟨_, hn⟩ => by cases hn) hall
  rw [hsome]
  constructor
  · intro hall
    obtain ⟨names, hnames⟩ := eq_map_name hall
    rw [hnames, List.head?_map]
    refine ⟨by simp, ?_⟩
    cases names.head? <;> simp
  · rintro ⟨hup, hhere⟩
    have heq := Relative.components_eq ⟨relative_ne_empty url, head?_relative url, start_relative hhere⟩
    rw [heq] at hup ⊢
    rw [List.all_eq_true]
    intro component hm
    obtain ⟨piece, -, hpiece⟩ := List.mem_filterMap.1 hm
    obtain hs | hs | hs := Component.ofPiece?_cases piece <;> rw [hs] at hpiece <;> cases hpiece
    · exact absurd hm hup
    · rfl

/-- What a URL path stands for goes through ordinary names only. -/
theorem resolve_names (h : resolve root url = some path) :
    path = join root (relative url) ∧ Relative (relative url) ∧
      ∃ names : List String, names ≠ [] ∧ (∀ name ∈ names, Ordinary name) ∧
        components (relative url) = names.map .name := by
  have hstart := start_relative ((exists_resolve_iff root url).1 ⟨path, h⟩).2
  have hrel : Relative (relative url) := ⟨relative_ne_empty url, head?_relative url, hstart⟩
  unfold resolve at h
  split_ifs at h with hall
  obtain ⟨names, hnames⟩ := eq_map_name hall
  refine ⟨(Option.some.inj h).symm, hrel, names, ?_, fun name hn => ?_, hnames⟩
  · rintro rfl
    exact hrel.components_ne_nil hnames
  · have hmem : Component.name name ∈ components (relative url) := by
      rw [hnames]
      exact List.mem_map_of_mem hn
    exact ordinary_of_mem_components hmem

/-- The type is that of the last name. -/
lemma typeOf_join (hrel : Relative (relative url)) (hne : names ≠ [])
    (hnames : components (relative url) = names.map .name) :
    typeOf (join root (relative url)) = contentType (names.getLast?.bind extension?) := by
  obtain ⟨last, hlast⟩ : ∃ last, names.getLast? = some last := ⟨_, List.getLast?_eq_some_getLast hne⟩
  rw [typeOf, fileName?, components_join root hrel, hnames, List.getLast?_append, List.getLast?_map, hlast]
  rfl

/-! ### Readers -/

/-- A reader that gives nothing but the contents of the files of a tree. It may fail. -/
def Truthful (world : Tree) (place : List String) (reader : String → Option (List UInt8)) : Prop :=
  ∀ path contents, reader path = some contents → world.read place path = some contents

lemma truthful_read (world : Tree) (place : List String) : Truthful world place (world.read place) :=
  fun _ _ h => h

/-- The answer with a file, if reading has no effects. -/
lemma serveFile_eq (reader : String → Option (List UInt8)) (path : String) :
    serveFile (m := Id) reader path = ((reader path).map (Answer.found (typeOf path))).getD Answer.notFound := by
  unfold serveFile
  cases reader path <;> rfl

lemma serve_eq (reader : String → Option (List UInt8)) (root url : String) :
    serve (m := Id) reader root url =
      ((resolve root url).bind fun path => (reader path).map (Answer.found (typeOf path))).getD Answer.notFound := by
  unfold serve
  cases resolve root url with
  | none => rfl
  | some path => exact serveFile_eq reader path

/-- A file that is read lies where the names lead to from the directory. -/
lemma at?_of_read (hrel : Relative (relative url)) (hnames : components (relative url) = names.map .name)
    (h : world.read place (join root (relative url)) = some contents) :
    ∃ base, world.walk place root = some base ∧ world.at? (base ++ names) = some (.file contents) := by
  obtain ⟨-, -, there, hwalk, hfile⟩ := Tree.read_eq_some.1 h
  rw [Tree.walk_join world place hrel] at hwalk
  obtain ⟨base, hbase, hwalk⟩ := Option.bind_eq_some_iff.1 hwalk
  rw [hrel.components_eq] at hnames
  rw [Tree.walk_descends hnames hwalk] at hfile
  exact ⟨base, hbase, hfile⟩

/-- A file that lies there is read, if the path ends with its name. -/
lemma read_of_at? (hrel : Relative (relative url)) (hnames : components (relative url) = names.map .name)
    (hbase : world.walk place root = some base) (hfile : world.at? (base ++ names) = some (.file contents))
    (hlast : ∀ piece, (pieces (relative url).toList).getLast? = some piece → Component.ofPiece? piece ≠ none)
    (hnul : '\x00' ∉ (join root (relative url)).toList) :
    world.read place (join root (relative url)) = some contents := by
  refine Tree.read_eq_some.2 ⟨fun hempty => ?_, hnul, base ++ names, ?_, hfile⟩
  · have hcomponents := components_join root hrel
    rw [hempty] at hcomponents
    have hsilent : components "" = [] := rfl
    rw [hsilent, eq_comm, List.append_eq_nil_iff] at hcomponents
    exact hrel.components_ne_nil hcomponents.2
  · rw [hrel.components_eq] at hnames
    rw [Tree.walk_join world place hrel, hbase, Option.bind_eq_bind, Option.bind_some]
    exact Tree.walk_arrives hnames hlast hfile

lemma mem_join {c : Char} (hc : c ≠ '/') (h : c ∈ (join root path).toList) :
    c ∈ root.toList ∨ c ∈ path.toList := by
  unfold join at h
  split_ifs at h
  · exact .inr h
  · rwa [String.toList_append, List.mem_append] at h
  · rw [String.toList_append, String.toList_append, List.mem_append, List.mem_append] at h
    obtain (h | h) | h := h
    · exact .inl h
    · exact absurd (List.mem_singleton.1 h) hc
    · exact .inr h

end Site

/-! ### The directory -/

open Site (resolve relative Truthful serve contentType extension? Answer)

/-- **The site never leaves its directory.** A URL path stands for a path exactly if its components, after the slashes
in front, neither go up nor start with a dot. That path is the directory followed by one ordinary name or more. So the
answer is the contents of the file of a tree to which these names lead from the directory, or that there is none; and
where there is such a file, the path ends with its name and no NUL is in the way, it is the answer. -/
theorem site_confined (root url : String) :
    ((∃ path, resolve root url = some path) ↔
      .up ∉ components (relative url) ∧ (components (relative url)).head? ≠ some .here) ∧
    (∀ path, resolve root url = some path → path = join root (relative url) ∧
      ∃ names : List String, names ≠ [] ∧ (∀ name ∈ names, Ordinary name) ∧
        components (relative url) = names.map .name ∧ components path = components root ++ names.map .name) ∧
    (∀ (world : Tree) (place : List String) (reader : String → Option (List UInt8)), Truthful world place reader →
      serve (m := Id) reader root url = Answer.notFound ∨
      ∃ (names base : List String) (contents : List UInt8), names ≠ [] ∧ (∀ name ∈ names, Ordinary name) ∧
        components (relative url) = names.map .name ∧ world.walk place root = some base ∧
        world.at? (base ++ names) = some (.file contents) ∧
        serve (m := Id) reader root url = Answer.found (contentType (names.getLast?.bind extension?)) contents) ∧
    ∀ (world : Tree) (place names base : List String) (contents : List UInt8),
      components (relative url) = names.map .name →
      world.walk place root = some base → world.at? (base ++ names) = some (.file contents) →
      (∀ piece, (pieces (relative url).toList).getLast? = some piece → Component.ofPiece? piece ≠ none) →
      '\x00' ∉ root.toList → '\x00' ∉ url.toList →
      serve (m := Id) (world.read place) root url =
        Answer.found (contentType (names.getLast?.bind extension?)) contents := by
  refine ⟨Site.exists_resolve_iff root url, fun path hp => ?_, fun world place reader htrue => ?_,
    fun world place names base contents hnames hbase hfile hlast hroot hurl => ?_⟩
  · obtain ⟨rfl, hrel, names, hne, hord, hnames⟩ := Site.resolve_names hp
    exact ⟨rfl, names, hne, hord, hnames, by rw [components_join root hrel, hnames]⟩
  · rw [Site.serve_eq]
    cases hp : resolve root url with
    | none => exact .inl rfl
    | some path =>
      obtain ⟨rfl, hrel, names, hne, hord, hnames⟩ := Site.resolve_names hp
      cases hr : reader (join root (relative url)) with
      | none =>
        left
        rw [Option.bind_some, hr]
        rfl
      | some contents =>
        obtain ⟨base, hbase, hfile⟩ := Site.at?_of_read hrel hnames (htrue _ _ hr)
        refine .inr ⟨names, base, contents, hne, hord, hnames, hbase, hfile, ?_⟩
        rw [Option.bind_some, hr, ← Site.typeOf_join hrel hne hnames]
        rfl
  · obtain ⟨path, hp⟩ : ∃ path, resolve root url = some path := by
      rw [Site.exists_resolve_iff, hnames, List.head?_map]
      refine ⟨by simp, ?_⟩
      cases names.head? <;> simp
    obtain ⟨rfl, hrel, names', hne, -, hnames'⟩ := Site.resolve_names hp
    obtain rfl : names = names' := List.map_injective_iff.2 Component.name_injective (hnames.symm.trans hnames')
    have hnul : '\x00' ∉ (join root (relative url)).toList := fun hm =>
      (Site.mem_join (by decide) hm).elim hroot fun hm => hurl (Site.mem_relative (by decide) hm)
    rw [Site.serve_eq, hp, Option.bind_some, Site.read_of_at? hrel hnames hbase hfile hlast hnul,
      ← Site.typeOf_join hrel hne hnames]
    rfl

/-- A file below the directory is found, and one beside it is not. -/
theorem site_confined_beside :
    serve (m := Id) (((Tree.directory []).plant [104, 105] ["srv", "www", "app", "main.js"]).read ["srv"]) "www"
        "//app/./main.js" = Answer.found "application/javascript" [104, 105] ∧
      ¬ (∃ path, resolve "www" "/app/../../key" = some path) ∧
      serve (m := Id) (((Tree.directory []).plant [107] ["srv", "key"]).read ["srv"]) "www" "/key" =
        Answer.notFound ∧
      join "www" (relative "/app/main.js") = "www/app/main.js" ∧
      ∀ path, resolve "www" "/app/main.js" = some path → components path ≠ components "www" := by
  refine ⟨?_, ?_, ?_, by decide, fun path hp => ?_⟩
  · have htype : contentType (["app", "main.js"].getLast?.bind extension?) = "application/javascript" := by decide
    rw [← htype]
    exact (site_confined "www" "//app/./main.js").2.2.2 _ ["srv"] ["app", "main.js"] ["srv", "www"] [104, 105]
      (by decide) (by decide) (Tree.at?_plant ..) (by decide) (by decide) (by decide)
  · rw [(site_confined "www" "/app/../../key").1]
    decide
  · have hno : ((Tree.directory []).plant [107] ["srv", "key"]).walk ["srv"] "www" = none := by decide
    have htrue := Site.truthful_read ((Tree.directory []).plant [107] ["srv", "key"]) ["srv"]
    obtain h | ⟨-, base, -, -, -, -, hbase, -⟩ := (site_confined "www" "/key").2.2.1 _ _ _ htrue
    · exact h
    · cases hno.symm.trans hbase
  · obtain ⟨-, names, hne, -, -, hpath⟩ := (site_confined "www" "/app/main.js").2.1 path hp
    rw [hpath, Ne, List.append_right_eq_self, List.map_eq_nil_iff]
    exact hne

end ToolchainHost
