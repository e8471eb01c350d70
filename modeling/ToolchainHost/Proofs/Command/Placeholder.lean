import Mathlib.Data.List.ReduceOption
import ToolchainHost.Proofs.Command.Words
import ToolchainHost.Proofs.Guest.Visits
import ToolchainHost.Proofs.Text.Cuts
import ToolchainHost.Worker

/-!
# The placeholder as a word

The file name is put into a line before the line is cut into words. When is that the same as putting it in for the
words that are placeholders?

* `Text.cutInduction`: induction on the places at which a token occurs.
* `Standalone`: every placeholder of a line is a word of its own that is not quoted.
* `exists_template`: the words of such a line around the places where a name goes.
* `isWord_iff`: the names that are read as themselves.
* `words_fillIn_iff`: with such a name, the lines where it is the same.
-/

namespace ToolchainHost

namespace Text

variable {text before after rest sub token : List Char} {c : Char}

/-! ### Tokens whose first character does not come again -/

lemma not_straddles_before (hc : c ∉ rest) (s t : List Char) : ¬ Straddles (c :: rest) s (c :: rest ++ t) := by
  rintro ⟨a, b, ha, hb, -, hfirst, htoken⟩
  obtain ⟨x, a, rfl⟩ := List.exists_cons_of_ne_nil ha
  obtain ⟨y, b, rfl⟩ := List.exists_cons_of_ne_nil hb
  obtain ⟨rfl, -⟩ := List.cons_prefix_cons.1 hfirst
  obtain ⟨-, rfl⟩ := List.cons.inj htoken
  exact hc (List.mem_append_right a (List.mem_cons_self ..))

lemma not_straddles_self (hc : c ∉ rest) (t : List Char) : ¬ Straddles (c :: rest) (c :: rest) t := by
  rintro ⟨a, b, ha, hb, hsuffix, -, htoken⟩
  obtain ⟨x, a, rfl⟩ := List.exists_cons_of_ne_nil ha
  obtain ⟨rfl, hrest⟩ := List.cons.inj htoken
  rcases List.suffix_cons_iff.1 hsuffix with heq | hsuffix
  · obtain ⟨-, rfl⟩ := List.cons.inj heq
    exact hb (List.self_eq_append_right.1 hrest)
  · exact hc (hsuffix.subset (List.mem_cons_self ..))

/-- Nothing is replaced in a text without the token. -/
lemma replaceOnto_of_free (sub : List Char) (h : ¬ token <:+: text) : replaceOnto token sub [] 0 text = text := by
  induction text with
  | nil => rfl
  | cons c text ih =>
    obtain ⟨hhere, hlater⟩ := not_or.1 (mt List.infix_cons_iff.2 h)
    rw [replaceOnto, if_neg (mt List.isPrefixOf_iff_prefix.1 hhere), replaceOnto_eq, ih hlater]
    rfl

lemma replaceOnto_self (c : Char) (rest sub : List Char) :
    replaceOnto (c :: rest) sub [] 0 (c :: rest) = sub := by
  rw [replaceOnto, if_pos (List.isPrefixOf_iff_prefix.2 List.prefix_rfl), replaceOnto_drop, List.length_cons,
    Nat.add_sub_cancel, List.drop_length, replaceOnto, List.append_nil, List.reverse_reverse]

/-- What is before a token that is replaced, and what is behind it. -/
lemma replaceOnto_cut (hc : c ∉ rest) (sub : List Char) (hfree : ¬ c :: rest <:+: before) (after : List Char) :
    replaceOnto (c :: rest) sub [] 0 (before ++ c :: rest ++ after) =
      before ++ sub ++ replaceOnto (c :: rest) sub [] 0 after := by
  have hne : c :: rest ≠ [] := List.cons_ne_nil c rest
  rw [List.append_assoc, replaceOnto_append hne sub _ _ (not_straddles_before hc before after),
    replaceOnto_append hne sub _ _ (not_straddles_self hc after), replaceOnto_self,
    replaceOnto_of_free sub hfree, List.append_assoc]

/-- Where a token occurs, it occurs a first time. -/
lemma exists_first (hne : token ≠ []) (h : token <:+: text) :
    ∃ before after, text = before ++ token ++ after ∧ ¬ token <:+: before := by
  induction text with
  | nil => exact absurd (List.infix_nil.1 h) hne
  | cons c text ih =>
    by_cases hhere : token <+: c :: text
    · obtain ⟨after, hafter⟩ := hhere
      exact ⟨[], after, hafter.symm, mt List.infix_nil.1 hne⟩
    · obtain ⟨before, after, rfl, hfree⟩ := ih ((List.infix_cons_iff.1 h).resolve_left hhere)
      refine ⟨c :: before, after, rfl, fun hwhole => ?_⟩
      rcases List.infix_cons_iff.1 hwhole with hfirst | hwhole
      · refine hhere (hfirst.trans ?_)
        rw [← List.cons_append, ← List.cons_append, List.append_assoc]
        exact List.prefix_append ..
      · exact hfree hwhole

/-- **Induction on the places at which a token occurs**, from the last to the first. -/
theorem cutInduction {motive : List Char → Prop} (hne : token ≠ [])
    (free : ∀ text, ¬ token <:+: text → motive text)
    (cut : ∀ before after, ¬ token <:+: before → motive after → motive (before ++ token ++ after))
    (text : List Char) : motive text := by
  induction hn : text.length using Nat.strongRecOn generalizing text with
  | ind n ih =>
    by_cases h : token <:+: text
    · obtain ⟨before, after, rfl, hfree⟩ := exists_first hne h
      have hlen : 0 < token.length := List.length_pos_iff.2 hne
      simp only [List.length_append] at hn
      exact cut before after hfree (ih after.length (by omega) after rfl)
    · exact free text h

end Text

namespace Command

variable {text before after a b : List Char} {w : Char} {name line : String}

/-! ### Names in place of the placeholder -/

/-- The characters of the placeholder behind the first. -/
def placeholderTail : List Char := ['f', 'i', 'l', 'e', 'n', 'a', 'm', 'e', '>']

lemma toList_placeholder : placeholder.toList = '<' :: placeholderTail := by decide

lemma notMem_placeholderTail : '<' ∉ placeholderTail := by decide

/-- The text with a name in place of every placeholder. -/
def fill (name text : List Char) : List Char := Text.replaceOnto placeholder.toList name [] 0 text

lemma words_fillIn (line name : String) : words (fillIn line name) = wordsOf (fill name.toList line.toList) :=
  words_ofList _

lemma fill_of_free (name : List Char) (h : ¬ placeholder.toList <:+: text) : fill name text = text :=
  Text.replaceOnto_of_free name h

lemma fill_cut (name : List Char) (hfree : ¬ placeholder.toList <:+: before) (after : List Char) :
    fill name (before ++ placeholder.toList ++ after) = before ++ name ++ fill name after := by
  unfold fill
  rw [toList_placeholder] at *
  exact Text.replaceOnto_cut notMem_placeholderTail name hfree after

lemma placeholder_ne_nil : placeholder.toList ≠ [] := by decide

lemma fill_placeholder (text : List Char) : fill placeholder.toList text = text := by
  induction text using Text.cutInduction placeholder_ne_nil with
  | free text h => exact fill_of_free _ h
  | cut before after hfree ih => rw [fill_cut _ hfree, ih]

/-- At the edge of a word there is nothing more, or a blank. -/
def IsEdge (next : Option Char) : Prop := ∀ w ∈ next, Text.isBlank w = true

instance : DecidablePred IsEdge := Option.decidableForallMem

/-- A blank that a text starts with stays in front. -/
lemma isEdge_head_fill (name : List Char) (h : IsEdge text.head?) : IsEdge (fill name text).head? := by
  cases text with
  | nil => exact h
  | cons w text =>
    have hw : Text.isBlank w = true := h w rfl
    have hne : ¬ '<' :: placeholderTail <+: w :: text := by
      intro hp
      rw [← (List.cons_prefix_cons.1 hp).1] at hw
      exact absurd hw (by decide)
    have hfill : fill name (w :: text) = w :: fill name text := by
      unfold fill
      rw [toList_placeholder, Text.replaceOnto, if_neg (mt List.isPrefixOf_iff_prefix.1 hne), Text.replaceOnto_eq]
      rfl
    rw [hfill]
    exact h

/-! ### Cutting next to blanks -/

lemma openQuote_concat (a : List Char) (c : Char) : openQuote (a ++ [c]) = quoteAfter (openQuote a) c :=
  List.foldl_append ..

lemma isQuote_of_openQuote {q : Char} (h : openQuote text = some q) : IsQuote q := by
  induction text using List.reverseRecOn generalizing q with
  | nil => cases h
  | append_singleton text c ih =>
    rw [openQuote_concat] at h
    cases hopen : openQuote text with
    | some q' =>
      rw [hopen, quoteAfter] at h
      split_ifs at h
      cases h
      exact ih hopen
    | none =>
      rw [hopen, quoteAfter] at h
      split_ifs at h with hc
      cases h
      exact hc

/-- A blank closes no quote. -/
lemma openQuote_concat_blank (hw : Text.isBlank w = true) : openQuote (a ++ [w]) = openQuote a := by
  rw [openQuote_concat]
  cases hopen : openQuote a with
  | some q =>
    refine if_neg ?_
    rintro rfl
    exact not_isQuote_of_isBlank hw (isQuote_of_openQuote hopen)
  | none => exact if_neg (not_isQuote_of_isBlank hw)

lemma wordsOf_append_of_getLast (ha : openQuote a = none) (hlast : IsEdge a.getLast?) (b : List Char) :
    wordsOf (a ++ b) = wordsOf a ++ wordsOf b := by
  obtain rfl | ⟨a, w, rfl⟩ := List.eq_nil_or_concat' a
  · rfl
  · have hw : Text.isBlank w = true := hlast w List.getLast?_concat
    rw [openQuote_concat_blank hw] at ha
    rw [List.append_assoc, List.singleton_append, wordsOf_append_blank ha hw, wordsOf_append_blank ha hw,
      List.append_assoc]
    rfl

lemma wordsOf_append_of_head (ha : openQuote a = none) (hhead : IsEdge b.head?) :
    wordsOf (a ++ b) = wordsOf a ++ wordsOf b := by
  cases b with
  | nil => rw [List.append_nil]; exact (List.append_nil _).symm
  | cons w b =>
    have hw : Text.isBlank w = true := hhead w rfl
    have hskip : wordsOf (w :: b) = wordsOf b := wordsOf_blanks_append (a := [w]) (by simpa using hw) b
    rw [wordsOf_append_blank ha hw, hskip]

/-! ### Placeholders that are words of their own -/

/-- Every placeholder of a line is a word of its own that is not quoted. -/
def Standalone (line : List Char) : Prop :=
  ∀ before after, line = before ++ placeholder.toList ++ after →
    openQuote before = none ∧ IsEdge before.getLast? ∧ IsEdge after.head?

/-- It is enough to look at each place of the line. -/
lemma standalone_iff {line : List Char} : Standalone line ↔
    ∀ i ∈ List.range (line.length + 1), placeholder.toList <+: line.drop i →
      openQuote (line.take i) = none ∧ IsEdge (line.take i).getLast? ∧
        IsEdge ((line.drop i).drop placeholder.toList.length).head? := by
  constructor
  · intro h i _ hp
    refine h (line.take i) _ ?_
    rw [List.append_assoc, List.prefix_iff_eq_append.1 hp, List.take_append_drop]
  · intro h before after hline
    subst hline
    have hi : before.length ∈ List.range ((before ++ placeholder.toList ++ after).length + 1) := by
      simp only [List.mem_range, List.length_append]
      omega
    have hhere := h before.length hi
    rw [List.append_assoc, List.drop_left, List.take_left, List.drop_left] at hhere
    exact hhere (List.prefix_append ..)

instance : DecidablePred Standalone := fun _ => decidable_of_iff _ standalone_iff.symm

lemma Standalone.behind (h : Standalone (before ++ placeholder.toList ++ after)) : Standalone after := by
  intro b a hafter
  obtain ⟨hquote, hlast, hhead⟩ := h (before ++ placeholder.toList ++ b) a (by simp [hafter])
  have hopen : openQuote (before ++ placeholder.toList) = none := by
    rw [openQuote_append (h before after rfl).1]
    decide
  rw [openQuote_append hopen] at hquote
  refine ⟨hquote, fun w hw => hlast w ?_, hhead⟩
  rw [List.getLast?_append, hw]
  rfl

/-- The words that a place of a template stands for. -/
def wordsAt (name : List Char) : Option String → List String
  | some word => [word]
  | none => wordsOf name

/-- **The template of a line**: the words around its placeholders, which stay when a name is put in. -/
theorem exists_template {line : List Char} (h : Standalone line) :
    ∃ template : List (Option String), ∀ name, openQuote name = none →
      wordsOf (fill name line) = template.flatMap (wordsAt name) := by
  induction line using Text.cutInduction placeholder_ne_nil with
  | free text hfree =>
    refine ⟨(wordsOf text).map some, fun name _ => ?_⟩
    rw [fill_of_free name hfree, List.flatMap_map]
    exact (List.flatMap_singleton' _).symm
  | cut before after hfree ih =>
    obtain ⟨template, htemplate⟩ := ih h.behind
    obtain ⟨hquote, hlast, hhead⟩ := h before after rfl
    refine ⟨(wordsOf before).map some ++ none :: template, fun name hname => ?_⟩
    have hwords : ((wordsOf before).map some).flatMap (wordsAt name) = wordsOf before := by
      rw [List.flatMap_map]
      exact List.flatMap_singleton' _
    calc wordsOf (fill name (before ++ placeholder.toList ++ after))
        = wordsOf before ++ wordsOf (name ++ fill name after) := by
          rw [fill_cut name hfree, List.append_assoc, wordsOf_append_of_getLast hquote hlast]
      _ = wordsOf before ++ (wordsOf name ++ template.flatMap (wordsAt name)) := by
          rw [wordsOf_append_of_head hname (isEdge_head_fill name hhead), htemplate name hname]
      _ = ((wordsOf before).map some ++ none :: template).flatMap (wordsAt name) := by
          rw [List.flatMap_append, hwords]
          rfl

/-! ### Names that are read as themselves -/

/-- A name without quotes and blanks. -/
def IsWord (name : String) : Prop := name ≠ "" ∧ ∀ c ∈ name.toList, IsPlain c

instance : DecidablePred IsWord := fun name => @instDecidableAnd _ _ _ (List.decidableBAll IsPlain name.toList)

/-- The characters of the words read so far. -/
def Reading.letters (r : Reading) : Nat := r.current.length + (r.done.flatMap String.toList).length

lemma Reading.letters_endWord (r : Reading) : r.endWord.letters = r.letters := by
  unfold endWord letters
  split_ifs
  · simp
  · rfl

lemma Reading.letters_step_le (r : Reading) (c : Char) : (r.step c).letters ≤ r.letters + 1 := by
  generalize hr : r.step c = r'
  cases hr ▸ r.takes_step c with
  | closed | opened => exact Nat.le_succ _
  | quoted | plain => exact Nat.le_of_eq (Nat.succ_add ..)
  | blank => rw [letters_endWord]; exact Nat.le_succ _

lemma Reading.letters_read_le (r : Reading) (text : List Char) : (r.read text).letters ≤ r.letters + text.length := by
  induction text generalizing r with
  | nil => exact Nat.le_refl _
  | cons c text ih =>
    have hstep := r.letters_step_le c
    have hrest : (r.read (c :: text)).letters ≤ (r.step c).letters + text.length := ih (r.step c)
    rw [List.length_cons]
    omega

/-- Quotes and blanks are no characters of a word, so each of them is missing in the end. -/
lemma Reading.plain_of_letters {r : Reading} (hr : r.quote = none)
    (h : r.letters + text.length ≤ (r.read text).letters) : ∀ c ∈ text, IsPlain c := by
  induction text generalizing r with
  | nil => exact fun _ hc => absurd hc List.not_mem_nil
  | cons c text ih =>
    have hrest : (r.read (c :: text)).letters ≤ (r.step c).letters + text.length := (r.step c).letters_read_le text
    rw [List.length_cons] at h
    have hstep : r.letters + 1 ≤ (r.step c).letters := by omega
    have hplain : IsPlain c ∧ (r.step c).quote = none := by
      generalize r.step c = r', r.takes_step c = ht at *
      cases ht with
      | closed hq | quoted hq => exact absurd (hr.symm.trans hq) (by simp)
      | opened => exact absurd hstep (Nat.not_succ_le_self _)
      | blank =>
        rw [letters_endWord] at hstep
        exact absurd hstep (Nat.not_succ_le_self _)
      | plain _ hq hb => exact ⟨⟨hq, hb⟩, hr⟩
    have hmore : (r.step c).letters + text.length ≤ ((r.step c).read text).letters := by
      have hle := r.letters_step_le c
      have heq : (r.step c).read text = r.read (c :: text) := rfl
      rw [heq]
      omega
    exact List.forall_mem_cons.2 ⟨hplain.1, ih hplain.2 hmore⟩

/-- **A name is read as itself** exactly if it has a character, and no quote and no blank. -/
theorem isWord_iff : IsWord name ↔ wordsOf name.toList = [name] := by
  constructor
  · intro h
    rw [wordsOf_of_plain h.2 (mt String.toList_eq_nil_iff.1 h.1), String.ofList_toList]
  · intro h
    refine ⟨?_, Reading.plain_of_letters (r := {}) rfl ?_⟩
    · rintro rfl
      cases h
    · have hdone : (Reading.read {} name.toList).endWord.done = [name] := List.reverse_eq_iff.1 h
      have hletters := (Reading.read {} name.toList).letters_endWord
      rw [Reading.letters, hdone, List.flatMap_singleton] at hletters
      rw [← hletters]
      exact Nat.add_le_add_right (Nat.zero_le _) _

lemma IsWord.openQuote (h : IsWord name) : openQuote name.toList = none := openQuote_of_forall fun c hc => (h.2 c hc).1

/-! ### Lines with a name put in -/

/-- Words with the name in place of those that are the placeholder. -/
def putIn (name : String) (list : List String) : List String :=
  list.map fun word => if word = placeholder then name else word

/-- No word of the line reads like the placeholder once its quotes are dropped. -/
def Unmasked (line : String) : Prop := placeholder ∉ words (fillIn line "")

instance : DecidablePred Unmasked := fun _ => inferInstanceAs (Decidable (¬ _))

/-- **With a name that is read as itself**, putting it into a line is putting it in for the words that are the
placeholder, unless some word only reads like it. -/
theorem words_fillIn_iff (hname : IsWord name) (hline : Standalone line.toList) :
    words (fillIn line name) = putIn name (words line) ↔ name = placeholder ∨ Unmasked line := by
  obtain ⟨template, htemplate⟩ := exists_template hline
  have hfilled (name : String) (h : IsWord name) :
      wordsOf (fill name.toList line.toList) = template.map (·.getD name) := by
    rw [htemplate _ h.openQuote, List.map_eq_flatMap]
    refine List.flatMap_congr fun place _ => ?_
    cases place with
    | some word => rfl
    | none => exact isWord_iff.1 h
  have hplain : words line = template.map (·.getD placeholder) := by
    rw [← hfilled placeholder (by decide), fill_placeholder]
    rfl
  have hempty : words (fillIn line "") = template.reduceOption := by
    rw [words_fillIn, String.toList_empty, htemplate [] rfl, List.reduceOption, List.filterMap_eq_flatMap_toList]
    refine List.flatMap_congr fun place _ => ?_
    cases place <;> rfl
  rw [Unmasked, hempty, List.reduceOption_mem_iff, words_fillIn, hfilled name hname, hplain, putIn, List.map_map,
    List.map_inj_left]
  constructor
  · intro h
    refine or_iff_not_imp_right.2 fun hmask => ?_
    have hword : placeholder = if placeholder = placeholder then name else placeholder := h _ (not_not.1 hmask)
    rw [if_pos rfl] at hword
    exact hword.symm
  · rintro (rfl | hmask) place hplace
    · cases place with
      | some word => exact (ite_eq_right_iff.2 Eq.symm).symm
      | none => rfl
    · cases place with
      | some word =>
        have hne : word ≠ placeholder := by
          rintro rfl
          exact hmask hplace
        exact (if_neg hne).symm
      | none => rfl

/-- A name that is not read as itself is not one word of the line that consists of the placeholder. -/
lemma isWord_of_words_fillIn (h : words (fillIn placeholder name) = putIn name (words placeholder)) : IsWord name := by
  have hfill : fill name.toList placeholder.toList = name.toList := by
    have hcut : fill name.toList ([] ++ placeholder.toList ++ []) = [] ++ name.toList ++ fill name.toList [] :=
      fill_cut name.toList (mt List.infix_nil.1 placeholder_ne_nil) []
    have hnil : fill name.toList [] = [] := rfl
    simpa only [List.nil_append, List.append_nil, hnil] using hcut
  have hone : putIn name (words placeholder) = [name] := congrArg (putIn name) (by decide : _ = [placeholder])
  rw [words_fillIn, hfill, hone] at h
  exact isWord_iff.2 h

/-- Lines that are run with names put in for their words. -/
lemma runCommand_eq {σ μ γ : Type} (engine : Engine σ μ γ) (active : String) (lines : List String)
    (files : List SourceFile) (h : ∀ line ∈ lines, words (fillIn line (Path.baseName active)) =
      putIn (Path.baseName active) (words line)) :
    Worker.runCommand engine active lines files = (do
      Worker.writeFiles files
      lines.forM fun line => Toolchain.runWords engine (putIn (Path.baseName active) (words line))) := by
  refine congrArg (Worker.writeFiles files >>= ·) (funext fun _ => ?_)
  induction lines with
  | nil => rfl
  | cons line lines ih =>
    obtain ⟨hline, hlines⟩ := List.forall_mem_cons.1 h
    exact congrArg₂ (fun x y => x >>= fun _ => y) (congrArg (Toolchain.runWords engine) hline) (ih hlines)

/-- **The placeholder stands for one word**, if the base name of the active file is read as itself. Then a request
runs its lines with the name in place of the words that are the placeholder. For any other name that is not so, even
where every placeholder is a word of its own; and a word that reads like the placeholder once its quotes are dropped is
no placeholder. -/
theorem placeholder_stands :
    (∀ active : String, IsWord (Path.baseName active) ↔
      ∀ line : String, Standalone line.toList → Unmasked line →
        words (fillIn line (Path.baseName active)) = putIn (Path.baseName active) (words line)) ∧
    (∀ active line : String, IsWord (Path.baseName active) → Standalone line.toList →
      (words (fillIn line (Path.baseName active)) = putIn (Path.baseName active) (words line) ↔
        Path.baseName active = placeholder ∨ Unmasked line)) ∧
    ∀ (σ μ γ : Type) (engine : Engine σ μ γ) (active : String) (lines : List String) (files : List SourceFile),
      IsWord (Path.baseName active) → (∀ line ∈ lines, Standalone line.toList ∧ Unmasked line) →
      Worker.runCommand engine active lines files = (do
        Worker.writeFiles files
        lines.forM fun line => Toolchain.runWords engine (putIn (Path.baseName active) (words line))) := by
  refine ⟨fun active => ⟨fun hname line hline hmask => ?_, fun h => ?_⟩, fun active line hname hline => ?_,
    fun σ μ γ engine active lines files hname hlines => ?_⟩
  · exact (words_fillIn_iff hname hline).2 (Or.inr hmask)
  · exact isWord_of_words_fillIn (h placeholder (by decide) (by decide))
  · exact words_fillIn_iff hname hline
  · refine runCommand_eq engine active lines files fun line hline => ?_
    obtain ⟨halone, hmask⟩ := hlines line hline
    exact (words_fillIn_iff hname halone).2 (Or.inr hmask)

/-- A name that is read as itself in a line with two placeholders, a line where a word only reads like the
placeholder, and a request. -/
theorem placeholder_stands_hello :
    words (fillIn "cc <filename> -o 'my <b>' <filename>" (Path.baseName "proj/hellö.c")) =
        ["cc", "hellö.c", "-o", "my <b>", "hellö.c"] ∧
      words (fillIn "ls '<file'name>" (Path.baseName "a.c")) ≠ putIn (Path.baseName "a.c") (words "ls '<file'name>") ∧
      Worker.runCommand (.ofGuest () fun _ _ => .done (.ok (), ())) "a.c" ["run <filename>"] [] = (do
        Worker.writeFiles []
        ["run <filename>"].forM fun line =>
          Toolchain.runWords (.ofGuest () fun _ _ => .done (.ok (), ()))
            (putIn (Path.baseName "a.c") (words line))) := by
  have hword : IsWord (Path.baseName "proj/hellö.c") := by decide
  have hline : Standalone "cc <filename> -o 'my <b>' <filename>".toList := by decide
  refine ⟨((placeholder_stands.1 _).1 hword _ hline (by decide)).trans (by decide), ?_,
    placeholder_stands.2.2 Unit Unit Unit _ "a.c" ["run <filename>"] [] (by decide) ?_⟩
  · exact (placeholder_stands.2.1 "a.c" "ls '<file'name>" (by decide) (by decide)).not.2 (by decide)
  · intro line hline
    obtain rfl := List.mem_singleton.1 hline
    exact ⟨by decide, by decide⟩

/-- A name with a blank in it is put in as two words. -/
theorem exists_name_divided :
    ¬ ∀ active line : String, Standalone line.toList →
      words (fillIn line (Path.baseName active)) = putIn (Path.baseName active) (words line) := by
  intro h
  exact absurd (h "my file.c" "clang <filename>" (by decide)) (by decide)

end Command

end ToolchainHost
