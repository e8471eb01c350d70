import Mathlib.Logic.Function.Basic
import Mathlib.Tactic.Common
import ToolchainHost.Tree

/-!
# Paths below a directory

* `Ordinary`: a name that a component can be.
* `Relative`: a path that starts with a name or goes up first.
* `components_join`: the components of a path below a directory.
* `Tree.walk_join`: a walk below a directory.
* `Tree.walk_descends`, `Tree.walk_arrives`: a walk that goes through names only ends where these lead to.
-/

namespace ToolchainHost

variable {path name root : String} {piece : List Char}

/-! ### Pieces -/

lemma pieces_ne_nil (cs : List Char) : pieces cs ≠ [] := by
  cases cs with
  | nil => exact List.cons_ne_nil _ _
  | cons c cs =>
    rw [pieces]
    split_ifs
    · exact List.cons_ne_nil _ _
    · split <;> exact List.cons_ne_nil _ _

/-- A character that is no slash belongs to the first piece. -/
lemma exists_pieces_cons {c : Char} (h : c ≠ '/') (cs : List Char) :
    ∃ p rest, pieces cs = p :: rest ∧ pieces (c :: cs) = (c :: p) :: rest := by
  obtain ⟨p, rest, hp⟩ := List.exists_cons_of_ne_nil (pieces_ne_nil cs)
  refine ⟨p, rest, hp, ?_⟩
  rw [pieces, if_neg h, hp]

lemma pieces_slash (cs : List Char) : pieces ('/' :: cs) = [] :: pieces cs := by
  rw [pieces, if_pos rfl]

/-- A slash parts the pieces. -/
lemma pieces_append (a b : List Char) : pieces (a ++ '/' :: b) = pieces a ++ pieces b := by
  induction a with
  | nil => exact pieces_slash b
  | cons c a ih =>
    by_cases h : c = '/'
    · rw [h, List.cons_append, pieces_slash, pieces_slash, ih, List.cons_append]
    · obtain ⟨p, rest, hp, hc⟩ := exists_pieces_cons h a
      obtain ⟨p', rest', hp', hc'⟩ := exists_pieces_cons h (a ++ '/' :: b)
      rw [ih, hp, List.cons_append, List.cons.injEq] at hp'
      rw [List.cons_append, hc', hc, List.cons_append, ← hp'.1, ← hp'.2]

lemma slash_notMem_of_mem_pieces {cs : List Char} (h : piece ∈ pieces cs) : '/' ∉ piece := by
  induction cs generalizing piece with
  | nil =>
    obtain rfl := List.mem_singleton.1 h
    exact List.not_mem_nil
  | cons c cs ih =>
    by_cases hc : c = '/'
    · rw [hc, pieces_slash, List.mem_cons] at h
      obtain rfl | h := h
      · exact List.not_mem_nil
      · exact ih h
    · obtain ⟨p, rest, hp, hcons⟩ := exists_pieces_cons hc cs
      rw [hcons, List.mem_cons] at h
      obtain rfl | h := h
      · rw [List.mem_cons, not_or]
        exact ⟨fun he => hc he.symm, ih (hp ▸ List.mem_cons_self)⟩
      · exact ih (hp ▸ List.mem_cons_of_mem _ h)

/-! ### Components -/

/-- A name that a component can be: not empty, made of no slashes, and not one that stands for a directory. -/
def Ordinary (name : String) : Prop := name ≠ "" ∧ name ≠ "." ∧ name ≠ ".." ∧ '/' ∉ name.toList

instance : DecidablePred Ordinary := fun _ => inferInstanceAs (Decidable (_ ∧ _))

namespace Component

lemma name_injective : Function.Injective Component.name := fun _ _ h => by injection h

lemma ofPiece?_cases (piece : List Char) :
    ofPiece? piece = none ∨ ofPiece? piece = some .up ∨ ofPiece? piece = some (.name (String.ofList piece)) := by
  unfold ofPiece?
  split_ifs <;> simp

lemma ofPiece?_eq_name (h : ofPiece? piece = some (.name name)) :
    name.toList = piece ∧ name ≠ "" ∧ name ≠ "." ∧ name ≠ ".." := by
  unfold ofPiece? at h
  split_ifs at h with hsilent hup
  · cases h
  obtain ⟨hempty, hdot⟩ := not_or.1 hsilent
  cases h
  refine ⟨String.toList_ofList, fun he => hempty ?_, fun he => hdot ?_, fun he => hup ?_⟩ <;>
  · rw [← String.toList_ofList (l := piece), he]
    rfl

end Component

/-- A path that starts with a name or goes up first. -/
def Relative (path : String) : Prop := path ≠ "" ∧ path.toList.head? ≠ some '/' ∧ start path.toList = []

lemma Relative.components_eq (h : Relative path) :
    components path = (pieces path.toList).filterMap Component.ofPiece? := by
  rw [components, h.2.2, List.nil_append]

/-- A path that starts with a name, or goes up first, says something. -/
lemma Relative.components_ne_nil (h : Relative path) : components path ≠ [] := by
  rw [h.components_eq]
  obtain ⟨hne, hroot, hstart⟩ := h
  obtain ⟨c, cs, hcs⟩ : ∃ c cs, path.toList = c :: cs :=
    List.exists_cons_of_ne_nil fun he => hne (String.toList_injective he)
  rw [hcs, List.head?_cons, Ne, Option.some.injEq] at hroot
  obtain ⟨p, rest, -, hpieces⟩ := exists_pieces_cons hroot cs
  have hdot : c :: p ≠ ['.'] := by
    intro he
    rw [start, hcs, if_neg (by simpa using hroot), hpieces, List.head?_cons, he, if_pos rfl] at hstart
    cases hstart
  obtain ⟨said, hsaid⟩ : ∃ said, Component.ofPiece? (c :: p) = some said := by
    unfold Component.ofPiece?
    rw [if_neg (by simp [hdot])]
    split_ifs <;> exact ⟨_, rfl⟩
  rw [hcs, hpieces, List.filterMap_cons_some hsaid]
  exact List.cons_ne_nil _ _

lemma start_cases (path : List Char) : start path = [.root] ∨ start path = [.here] ∨ start path = [] := by
  unfold start
  split_ifs <;> simp

/-- A name among the components is an ordinary one. -/
lemma ordinary_of_mem_components (h : Component.name name ∈ components path) : Ordinary name := by
  rw [components, List.mem_append] at h
  obtain h | h := h
  · obtain hs | hs | hs := start_cases path.toList <;> rw [hs] at h <;> simp at h
  · obtain ⟨piece, hmem, hpiece⟩ := List.mem_filterMap.1 h
    obtain ⟨rfl, hempty, hdot, hup⟩ := Component.ofPiece?_eq_name hpiece
    exact ⟨hempty, hdot, hup, slash_notMem_of_mem_pieces hmem⟩

/-! ### Paths below a directory -/

/-- How a path is put behind a directory: with one slash between them, unless the directory is empty. -/
lemma join_cases (root : String) (h : path.toList.head? ≠ some '/') :
    (root = "" ∧ join root path = path) ∨
      ∃ front, (root.toList = front ∧ front ≠ [] ∨ root.toList = front ++ ['/']) ∧
        (join root path).toList = front ++ '/' :: path.toList := by
  rw [join, if_neg h]
  by_cases hempty : root = ""
  · exact .inl ⟨hempty, by rw [if_pos (.inl hempty), hempty, String.empty_append]⟩
  right
  by_cases hslash : root.toList.getLast? = some '/'
  · obtain ⟨front, hfront⟩ := List.getLast?_eq_some_iff.1 hslash
    refine ⟨front, .inr hfront, ?_⟩
    rw [if_pos (.inr hslash), String.toList_append, hfront, List.append_assoc, List.singleton_append]
  · refine ⟨root.toList, .inl ⟨rfl, fun he => hempty (String.toList_injective he)⟩, ?_⟩
    rw [if_neg (not_or.2 ⟨hempty, hslash⟩), String.toList_append, String.toList_append, List.append_assoc]
    rfl

/-- What stands behind a slash does not tell where a path starts. -/
lemma start_append {front : List Char} (h : front ≠ []) (back : List Char) :
    start (front ++ '/' :: back) = start front := by
  obtain ⟨c, cs, rfl⟩ := List.exists_cons_of_ne_nil h
  obtain ⟨p, rest, hp⟩ := List.exists_cons_of_ne_nil (pieces_ne_nil (c :: cs))
  rw [start, start, pieces_append, hp]
  rfl

/-- **The components of a path below a directory** are those of the directory and then its own. -/
theorem components_join (root : String) (h : Relative path) :
    components (join root path) = components root ++ components path := by
  obtain ⟨-, hroot, hstart⟩ := h
  obtain ⟨rfl, hjoin⟩ | ⟨front, hfront, hjoin⟩ := join_cases root hroot
  · rw [hjoin]
    rfl
  rw [components, components, components, hjoin, hstart, pieces_append, List.filterMap_append, List.nil_append]
  obtain ⟨hfront, hne⟩ | hfront := hfront
  · rw [hfront, start_append hne, List.append_assoc]
  · rw [hfront, pieces_append, List.filterMap_append]
    have hlast : (pieces []).filterMap Component.ofPiece? = [] := rfl
    rw [hlast, List.append_nil]
    rcases front with _ | ⟨c, cs⟩
    · rfl
    · rw [start_append (List.cons_ne_nil c cs), start_append (List.cons_ne_nil c cs), List.append_assoc]

example : components (join "www/" "a//b/./c/") = [.name "www", .name "a", .name "b", .name "c"] := by decide

namespace Tree

variable {world found : Tree} {place next base : List String} {names : List String} {contents : List UInt8}

/-! ### Places -/

lemma at?_append (world : Tree) (a b : List String) : world.at? (a ++ b) = (world.at? a).bind (at? · b) := by
  induction a generalizing world with
  | nil => rfl
  | cons name a ih =>
    rw [List.cons_append, at?, at?, Option.bind_assoc]
    exact Option.bind_congr fun below _ => ih below

/-- What something lies below is a directory. -/
lemma exists_directory (h : world.at? (place ++ name :: names) = some found) :
    ∃ entries below, world.at? place = some (directory entries) ∧ entries.lookup name = some below := by
  rw [at?_append] at h
  cases hp : world.at? place with
  | none =>
    rw [hp] at h
    cases h
  | some tree =>
    rw [hp, Option.bind_some, at?] at h
    obtain ⟨below, hbelow, -⟩ := Option.bind_eq_some_iff.1 h
    cases tree with
    | file => cases hbelow
    | directory entries => exact ⟨entries, below, rfl, hbelow⟩

/-- A file that is put somewhere is there. -/
theorem at?_plant (contents : List UInt8) (names : List String) (world : Tree) :
    (world.plant contents names).at? names = some (file contents) := by
  induction names generalizing world with
  | nil => rfl
  | cons name names ih =>
    rw [plant, at?, entries, List.lookup_cons_self]
    exact ih _

/-! ### Steps -/

/-- What a step does. -/
lemma step_cases (h : world.step place piece = some next) :
    ∃ entries, world.at? place = some (directory entries) ∧
      (Component.ofPiece? piece = none ∧ next = place ∨
        Component.ofPiece? piece = some .up ∧ next = place.dropLast ∨
        ∃ name below, Component.ofPiece? piece = some (.name name) ∧ entries.lookup name = some below ∧
          next = place ++ [name]) := by
  unfold step at h
  split at h
  case h_2 => cases h
  case h_1 entries hp =>
    refine ⟨entries, hp, ?_⟩
    obtain hs | hs | hs := Component.ofPiece?_cases piece <;> rw [hs] at h ⊢
    · exact .inl ⟨rfl, (Option.some.inj h).symm⟩
    · exact .inr (.inl ⟨rfl, (Option.some.inj h).symm⟩)
    · obtain ⟨below, hbelow, rfl⟩ := Option.map_eq_some_iff.1 h
      exact .inr (.inr ⟨_, below, rfl, hbelow, rfl⟩)

lemma step_of_silent {entries : List (String × Tree)} (hp : world.at? place = some (directory entries))
    (hs : Component.ofPiece? piece = none) : world.step place piece = some place := by
  rw [step, hp]
  dsimp only
  rw [hs]

lemma step_of_name {entries : List (String × Tree)} {below : Tree} (hp : world.at? place = some (directory entries))
    (hs : Component.ofPiece? piece = some (.name name)) (hb : entries.lookup name = some below) :
    world.step place piece = some (place ++ [name]) := by
  rw [step, hp]
  dsimp only
  rw [hs]
  dsimp only
  rw [hb, Option.map_some]

/-- A walk from where one has arrived takes a directory there. -/
lemma foldlM_step_silent {ps : List (List Char)} (h : ps ≠ []) (world : Tree) (place : List String) :
    (world.step place [] >>= fun next => ps.foldlM world.step next) = ps.foldlM world.step place := by
  obtain ⟨p, ps, rfl⟩ := List.exists_cons_of_ne_nil h
  cases hp : world.step place [] with
  | some next =>
    obtain ⟨-, -, ⟨-, rfl⟩ | ⟨hs, -⟩ | ⟨_, _, hs, -⟩⟩ := step_cases hp
    · rfl
    · cases hs
    · cases hs
  | none =>
    have hfirst : world.step place p = none := by
      by_contra hn
      obtain ⟨next, hnext⟩ := Option.ne_none_iff_exists'.1 hn
      obtain ⟨entries, hplace, -⟩ := step_cases hnext
      rw [step_of_silent hplace rfl] at hp
      cases hp
    rw [List.foldlM_cons, hfirst]
    rfl

/-! ### Walks -/

/-- **A walk below a directory** goes to the directory and from there on. -/
theorem walk_join (world : Tree) (place : List String) (h : Relative path) :
    world.walk place (join root path) =
      world.walk place root >>= fun base => (pieces path.toList).foldlM world.step base := by
  obtain ⟨-, hroot, -⟩ := h
  have hback := pieces_ne_nil path.toList
  obtain ⟨rfl, hjoin⟩ | ⟨front, hfront, hjoin⟩ := join_cases root hroot
  · have hempty : world.walk place "" = world.step place [] := by
      show world.step place [] >>= pure = _
      exact bind_pure _
    rw [hjoin, hempty, foldlM_step_silent hback, walk, if_neg hroot]
  · have hbegin : (join root path).toList.head? = root.toList.head? := by
      rw [hjoin]
      obtain ⟨hfront, hne⟩ | hfront := hfront
      · obtain ⟨c, cs, rfl⟩ := List.exists_cons_of_ne_nil hne
        rw [hfront, List.cons_append, List.head?_cons, List.head?_cons]
      · rw [hfront, List.head?_append, List.head?_append, List.head?_cons, List.head?_cons]
    rw [walk, walk, hbegin, hjoin, pieces_append, List.foldlM_append]
    obtain ⟨hfront, -⟩ | hfront := hfront
    · rw [hfront]
    · rw [hfront, pieces_append, List.foldlM_append, bind_assoc]
      refine bind_congr fun base => ?_
      have hlast : (pieces []).foldlM world.step base = world.step base [] := by
        show world.step base [] >>= pure = _
        exact bind_pure _
      rw [hlast, foldlM_step_silent hback]

/-- **A walk through names descends**: it ends where they lead to. -/
theorem walk_descends {ps : List (List Char)} (hps : ps.filterMap Component.ofPiece? = names.map .name)
    (h : ps.foldlM world.step base = some place) : place = base ++ names := by
  induction ps generalizing base names with
  | nil =>
    rw [List.filterMap_nil, eq_comm, List.map_eq_nil_iff] at hps
    rw [hps, List.append_nil]
    exact (Option.some.inj h).symm
  | cons p ps ih =>
    rw [List.foldlM_cons] at h
    obtain ⟨next, hnext, htail⟩ := Option.bind_eq_some_iff.1 h
    obtain ⟨-, -, ⟨hs, rfl⟩ | ⟨hs, -⟩ | ⟨name, -, hs, -, rfl⟩⟩ := step_cases hnext
    · rw [List.filterMap_cons_none hs] at hps
      exact ih hps htail
    · rw [List.filterMap_cons_some hs] at hps
      obtain ⟨_, _, _, hup, -⟩ := List.map_eq_cons_iff.1 hps.symm
      cases hup
    · rw [List.filterMap_cons_some hs] at hps
      obtain ⟨name', rest, rfl, hname, hrest⟩ := List.map_eq_cons_iff.1 hps.symm
      obtain rfl : name' = name := by simpa using hname
      rw [ih hrest.symm htail, List.append_assoc, List.singleton_append]

/-- **A walk through names arrives** if something is there, and the path ends with a name. -/
theorem walk_arrives {ps : List (List Char)} (hps : ps.filterMap Component.ofPiece? = names.map .name)
    (hlast : ∀ p, ps.getLast? = some p → Component.ofPiece? p ≠ none)
    (h : world.at? (base ++ names) = some found) :
    ps.foldlM world.step base = some (base ++ names) := by
  induction ps generalizing base names with
  | nil =>
    rw [List.filterMap_nil, eq_comm, List.map_eq_nil_iff] at hps
    rw [hps, List.append_nil]
    rfl
  | cons p ps ih =>
    have hrest (q : List Char) (hq : ps.getLast? = some q) : Component.ofPiece? q ≠ none := by
      refine hlast q ?_
      rw [List.getLast?_cons, hq, Option.getD_some]
    rcases names with _ | ⟨name, names⟩
    · -- the last piece is a name, but there is none
      exfalso
      rw [List.map_nil, List.filterMap_eq_nil_iff] at hps
      refine hlast _ (List.getLast?_eq_some_getLast (List.cons_ne_nil p ps)) (hps _ (List.getLast_mem _))
    obtain ⟨entries, below, hp, hbelow⟩ := exists_directory h
    rw [List.foldlM_cons]
    obtain hs | hs | hs := Component.ofPiece?_cases p
    · rw [List.filterMap_cons_none hs] at hps
      rw [step_of_silent hp hs]
      exact ih hps hrest h
    · rw [List.filterMap_cons_some hs, List.map_cons, List.cons.injEq] at hps
      cases hps.1
    · rw [List.filterMap_cons_some hs, List.map_cons, List.cons.injEq] at hps
      obtain ⟨hname, hps⟩ := hps
      rw [hname] at hs
      rw [step_of_name hp hs hbelow]
      rw [List.append_cons base name names] at h ⊢
      exact ih hps hrest h

/-! ### Reading -/

lemma read_eq_some : world.read place path = some contents ↔
    path ≠ "" ∧ '\x00' ∉ path.toList ∧
      ∃ names, world.walk place path = some names ∧ world.at? names = some (file contents) := by
  unfold read locate
  by_cases h : path = "" ∨ '\x00' ∈ path.toList
  · rw [if_pos h]
    refine ⟨fun hr => ?_, fun hr => absurd h (not_or.2 ⟨hr.1, hr.2.1⟩)⟩
    cases hr
  · rw [if_neg h]
    obtain ⟨hne, hnul⟩ := not_or.1 h
    constructor
    · intro hr
      split at hr
      case h_2 => cases hr
      case h_1 there hthere =>
        obtain rfl := Option.some.inj hr
        exact ⟨hne, hnul, Option.bind_eq_some_iff.1 hthere⟩
    · rintro ⟨-, -, names, hnames, hfile⟩
      rw [hnames, Option.bind_some, hfile]

end Tree

end ToolchainHost
