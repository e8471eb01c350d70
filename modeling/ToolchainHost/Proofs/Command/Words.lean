import Mathlib.Tactic.Common
import ToolchainHost.Command.Words

/-!
# Words and how they are written

* `openQuote`: the quote that a text leaves open.
* `wordsOf_append_blank`: a blank that is not quoted cuts a line into two.
* `quoted`, `Written`: words with all of their characters quoted, and lines made of them.
* `words_faithful`: such lines give back their words, every line can be cut at a blank that is not quoted, and a line
  without quotes is split at its blanks.
-/

namespace ToolchainHost.Command

variable {text a b : List Char} {c w : Char}

/-! ### Quotes -/

/-- The characters that open and close a stretch. -/
def IsQuote (c : Char) : Prop := c = '"' ∨ c = '\''

instance : DecidablePred IsQuote := fun _ => inferInstanceAs (Decidable (_ ∨ _))

/-- The quote that is open behind a character. -/
def quoteAfter (quote : Option Char) (c : Char) : Option Char :=
  match quote with
  | some q => if c = q then none else some q
  | none => if IsQuote c then some c else none

/-- The quote that a text leaves open. -/
def openQuote (text : List Char) : Option Char := text.foldl quoteAfter none

lemma openQuote_append (h : openQuote a = none) (b : List Char) : openQuote (a ++ b) = openQuote b := by
  unfold openQuote at *
  rw [List.foldl_append, h]

lemma not_isQuote_of_isBlank (h : Text.isBlank c = true) : ¬ IsQuote c := by
  rintro (rfl | rfl)
  · exact absurd h (by decide)
  · exact absurd h (by decide)

lemma openQuote_of_forall (h : ∀ c ∈ text, ¬ IsQuote c) : openQuote text = none := by
  induction text with
  | nil => rfl
  | cons c text ih =>
    obtain ⟨hc, hrest⟩ := List.forall_mem_cons.1 h
    have hone : openQuote [c] = none := if_neg hc
    exact (openQuote_append hone text).trans (ih hrest)

/-! ### Readings -/

namespace Reading

variable {r : Reading}

/-- What reading one character does. -/
inductive Takes (r : Reading) (c : Char) : Reading → Prop
  | closed (h : r.quote = some c) : Takes r c { r with quote := none }
  | quoted {q : Char} (h : r.quote = some q) (hc : c ≠ q) : Takes r c { r with current := c :: r.current }
  | opened (h : r.quote = none) (hc : IsQuote c) : Takes r c { r with quote := some c, inWord := true }
  | blank (h : r.quote = none) (hc : Text.isBlank c = true) : Takes r c r.endWord
  | plain (h : r.quote = none) (hq : ¬ IsQuote c) (hb : Text.isBlank c = false) :
      Takes r c { r with current := c :: r.current, inWord := true }

lemma takes_step (r : Reading) (c : Char) : r.Takes c (r.step c) := by
  unfold step
  split
  · rename_i q h
    split_ifs with hc
    · exact .closed (hc ▸ h)
    · exact .quoted h hc
  · rename_i h
    split_ifs with hq hb
    · exact .opened h hq
    · exact .blank h hb
    · exact .plain h hq (Bool.eq_false_iff.2 hb)

/-- Reads characters one after the other. -/
def read (r : Reading) (text : List Char) : Reading := text.foldl step r

lemma read_append (r : Reading) (a b : List Char) : r.read (a ++ b) = (r.read a).read b := List.foldl_append ..

lemma step_of_isBlank (h : r.quote = none) (hc : Text.isBlank c = true) : r.step c = r.endWord := by
  simp only [step, h]
  exact (if_neg (not_isQuote_of_isBlank hc)).trans (if_pos hc)

lemma quote_endWord (r : Reading) : r.endWord.quote = r.quote := by
  unfold endWord
  split_ifs <;> rfl

lemma quote_step (r : Reading) (c : Char) : (r.step c).quote = quoteAfter r.quote c := by
  generalize hr : r.step c = r'
  cases hr ▸ r.takes_step c with
  | closed h => rw [h, quoteAfter, if_pos rfl]
  | quoted h hc => rw [h, quoteAfter, if_neg hc]
  | opened h hc => rw [h, quoteAfter, if_pos hc]
  | blank h hc => rw [quote_endWord, h, quoteAfter, if_neg (not_isQuote_of_isBlank hc)]
  | plain h hq => rw [h, quoteAfter, if_neg hq]

lemma quote_read (text : List Char) : (read {} text).quote = openQuote text := by
  have hall (r : Reading) : (r.read text).quote = text.foldl quoteAfter r.quote := by
    induction text generalizing r with
    | nil => rfl
    | cons c text ih => exact (ih (r.step c)).trans (congrArg (text.foldl quoteAfter) (r.quote_step c))
  exact hall {}

/-- Characters are kept only of a word that has begun. -/
def Tidy (r : Reading) : Prop := r.inWord = false → r.current = [] ∧ r.quote = none

lemma Tidy.step (h : r.Tidy) (c : Char) : (r.step c).Tidy := by
  intro hw
  generalize r.step c = r', r.takes_step c = ht at *
  cases ht with
  | closed hq =>
    have := (h hw).2
    rw [hq] at this
    cases this
  | quoted hq hc =>
    have := (h hw).2
    rw [hq] at this
    cases this
  | opened => cases hw
  | blank hq hc =>
    rw [quote_endWord]
    refine ⟨?_, hq⟩
    unfold endWord at hw ⊢
    split_ifs at hw ⊢ with hin
    · rfl
    · exact (h hw).1
  | plain => cases hw

lemma tidy_read (text : List Char) : (read {} text).Tidy := by
  have hall {r : Reading} (h : r.Tidy) : (r.read text).Tidy := by
    induction text generalizing r with
    | nil => exact h
    | cons c text ih => exact ih (h.step c)
  exact hall fun _ => ⟨rfl, rfl⟩

/-- Between two words nothing is kept but the words that are done. -/
lemma Tidy.endWord_eq (h : r.Tidy) (hq : r.quote = none) : r.endWord = { done := r.endWord.done } := by
  obtain ⟨done, current, inWord, quote⟩ := r
  obtain rfl : quote = none := hq
  cases inWord with
  | true => rfl
  | false =>
    obtain rfl : current = [] := (h rfl).1
    rfl

/-- The reading behind words that were read before. -/
def behind (before : List String) (r : Reading) : Reading := { r with done := r.done ++ before }

lemma endWord_behind (before : List String) (r : Reading) : (r.behind before).endWord = r.endWord.behind before := by
  unfold endWord behind
  split_ifs <;> rfl

lemma step_behind (before : List String) (r : Reading) (c : Char) :
    (r.behind before).step c = (r.step c).behind before := by
  unfold step
  rw [endWord_behind]
  unfold behind
  dsimp only
  split
  · split_ifs <;> rfl
  · split_ifs <;> rfl

lemma read_behind (before : List String) (r : Reading) (text : List Char) :
    (r.behind before).read text = (r.read text).behind before := by
  induction text generalizing r with
  | nil => rfl
  | cons c text ih => exact (congrArg (read · text) (step_behind before r c)).trans (ih _)

end Reading

/-! ### Cutting a line -/

open Reading (read)

/-- The words of a line that is given as characters. -/
def wordsOf (text : List Char) : List String := (read {} text).endWord.done.reverse

lemma words_ofList (text : List Char) : words (String.ofList text) = wordsOf text := by
  rw [words, String.toList_ofList]
  rfl

/-- **A blank that is not quoted** cuts a line into two. -/
theorem wordsOf_append_blank (ha : openQuote a = none) (hw : Text.isBlank w = true) (b : List Char) :
    wordsOf (a ++ w :: b) = wordsOf a ++ wordsOf b := by
  have hquote : (read {} a).quote = none := (Reading.quote_read a).trans ha
  have hcut : (read {} a).step w = Reading.behind (read {} a).endWord.done {} := by
    rw [Reading.step_of_isBlank hquote hw, (Reading.tidy_read a).endWord_eq hquote]
    rfl
  have hread : read {} (a ++ w :: b) = (read {} b).behind (read {} a).endWord.done := by
    rw [Reading.read_append, ← Reading.read_behind, ← hcut]
    rfl
  unfold wordsOf
  rw [hread, Reading.endWord_behind]
  exact List.reverse_append

/-- Blanks in front of a line are passed over. -/
lemma wordsOf_blanks_append (ha : ∀ c ∈ a, Text.isBlank c = true) (b : List Char) : wordsOf (a ++ b) = wordsOf b := by
  induction a with
  | nil => rfl
  | cons w a ih =>
    obtain ⟨hw, hrest⟩ := List.forall_mem_cons.1 ha
    have hcut := wordsOf_append_blank (a := []) rfl hw (a ++ b)
    exact hcut.trans (ih hrest)

/-- Blanks behind a line that leaves no quote open are passed over. -/
lemma wordsOf_append_blanks (ha : openQuote a = none) (hb : ∀ c ∈ b, Text.isBlank c = true) :
    wordsOf (a ++ b) = wordsOf a := by
  cases b with
  | nil => rw [List.append_nil]
  | cons w b =>
    obtain ⟨hw, hrest⟩ := List.forall_mem_cons.1 hb
    have hnone : wordsOf b = [] := by
      have h := wordsOf_blanks_append hrest []
      rwa [List.append_nil] at h
    rw [wordsOf_append_blank ha hw, hnone, List.append_nil]

/-! ### Words without quotes -/

/-- A character that stands for itself in a word. -/
def IsPlain (c : Char) : Prop := ¬ IsQuote c ∧ Text.isBlank c = false

instance : DecidablePred IsPlain := fun _ => inferInstanceAs (Decidable (_ ∧ _))

namespace Reading

variable {r : Reading}

/-- The reading that has taken more characters of a word. -/
def taking (r : Reading) (text : List Char) : Reading := { r with current := text.reverse ++ r.current, inWord := true }

lemma taking_taking (r : Reading) (a b : List Char) : (r.taking a).taking b = r.taking (a ++ b) := by
  unfold taking
  rw [List.reverse_append, List.append_assoc]

/-- If each character is taken when it is written in some way, so are all of them. -/
lemma read_flatMap {write : Char → List Char} (hr : r.quote = none) (hne : text ≠ [])
    (hw : ∀ c ∈ text, ∀ r : Reading, r.quote = none → r.read (write c) = r.taking [c]) :
    r.read (text.flatMap write) = r.taking text := by
  induction text generalizing r with
  | nil => exact absurd rfl hne
  | cons c text ih =>
    obtain ⟨hc, hrest⟩ := List.forall_mem_cons.1 hw
    rw [List.flatMap_cons, read_append, hc r hr]
    obtain rfl | hnext := eq_or_ne text []
    · rfl
    · have hquote : (r.taking [c]).quote = none := hr
      rw [ih hquote hnext hrest, taking_taking, List.singleton_append]

lemma read_plain (hr : r.quote = none) (hc : IsPlain c) : r.read [c] = r.taking [c] := by
  show r.step c = { r with current := c :: r.current, inWord := true }
  simp only [step, hr]
  exact (if_neg hc.1).trans (if_neg (Bool.eq_false_iff.1 hc.2))

end Reading

/-- What is taken between two blanks is a word. -/
lemma wordsOf_of_taking (h : read {} a = Reading.taking {} text) : wordsOf a = [String.ofList text] := by
  have hword : (text.reverse ++ []).reverse = text := by rw [List.append_nil, List.reverse_reverse]
  unfold wordsOf
  rw [h]
  exact congrArg (fun word => [String.ofList word]) hword

/-- A text of plain characters is one word. -/
lemma wordsOf_of_plain (h : ∀ c ∈ text, IsPlain c) (hne : text ≠ []) : wordsOf text = [String.ofList text] := by
  have hread : Reading.read {} (text.flatMap fun c => [c]) = Reading.taking {} text :=
    Reading.read_flatMap rfl hne fun c hc r hr => Reading.read_plain hr (h c hc)
  rw [List.flatMap_singleton'] at hread
  exact wordsOf_of_taking hread

/-- A line without quotes is split at its blanks. -/
theorem wordsOf_of_no_quotes (h : ∀ c ∈ text, ¬ IsQuote c) :
    wordsOf text = ((text.splitOnP Text.isBlank).filter (· ≠ [])).map String.ofList := by
  induction hn : text.length using Nat.strongRecOn generalizing text with
  | ind n ih =>
    by_cases hb : ∀ c ∈ text, Text.isBlank c = false
    · rw [List.splitOnP_eq_singleton hb]
      obtain rfl | hne := eq_or_ne text []
      · rfl
      · rw [wordsOf_of_plain (fun c hc => ⟨h c hc, hb c hc⟩) hne]
        simp [hne]
    · simp only [not_forall, Bool.not_eq_false] at hb
      obtain ⟨w, hmem, hw⟩ := hb
      obtain ⟨a, b, rfl⟩ := List.append_of_mem hmem
      rw [List.length_append, List.length_cons] at hn
      have ha := fun c hc => h c (List.mem_append_left _ hc)
      have hb' := fun c hc => h c (List.mem_append_right _ (List.mem_cons_of_mem _ hc))
      rw [wordsOf_append_blank (openQuote_of_forall ha) hw, List.splitOnP_append_cons _ _ hw, List.filter_append,
        List.map_append, ih a.length (by omega) ha rfl, ih b.length (by omega) hb' rfl]

/-! ### Words with all of their characters quoted -/

/-- A character between two quotes of the other kind. -/
def quotedChar (c : Char) : List Char := if c = '\'' then ['"', c, '"'] else ['\'', c, '\'']

/-- A word with each of its characters quoted. -/
def quoted (word : String) : List Char :=
  if word = "" then ['\'', '\''] else word.toList.flatMap quotedChar

/-- The words are written with all of their characters quoted, and with blanks between them. -/
inductive Written : List String → List Char → Prop
  | nil : Written [] []
  | single (word : String) : Written [word] (quoted word)
  | cons (word : String) {next : String} {rest : List String} {gap line : List Char} (hgap : gap ≠ [])
      (hblank : ∀ c ∈ gap, Text.isBlank c = true) (h : Written (next :: rest) line) :
      Written (word :: next :: rest) (quoted word ++ gap ++ line)

lemma openQuote_quotedChar (c : Char) : openQuote (quotedChar c) = none := by
  unfold quotedChar
  split_ifs with hc
  · subst hc
    rfl
  · show quoteAfter (quoteAfter (quoteAfter none '\'') c) '\'' = none
    simp [quoteAfter, hc, IsQuote]

lemma openQuote_quoted (word : String) : openQuote (quoted word) = none := by
  unfold quoted
  split_ifs
  · rfl
  · induction word.toList with
    | nil => rfl
    | cons c cs ih => rw [List.flatMap_cons, openQuote_append (openQuote_quotedChar c), ih]

lemma Reading.read_quotedChar {r : Reading} (hr : r.quote = none) (c : Char) :
    r.read (quotedChar c) = r.taking [c] := by
  obtain ⟨done, current, inWord, quote⟩ := r
  obtain rfl : quote = none := hr
  unfold quotedChar
  split_ifs with hc
  · subst hc
    rfl
  · show Reading.step (Reading.step (Reading.step _ '\'') c) '\'' = _
    simp [Reading.step, Reading.taking, hc]

/-- A quoted word is read as that word. -/
lemma wordsOf_quoted (word : String) : wordsOf (quoted word) = [word] := by
  unfold quoted
  split_ifs with hword
  · subst hword
    rfl
  · have hne : word.toList ≠ [] := mt String.toList_eq_nil_iff.1 hword
    have hread := Reading.read_flatMap (r := {}) rfl hne fun c _ r hr => Reading.read_quotedChar hr c
    rw [wordsOf_of_taking hread, String.ofList_toList]

/-- **Written words are read back.** -/
theorem Written.read_back {words : List String} {line : List Char} (h : Written words line) :
    openQuote line = none ∧ wordsOf line = words := by
  induction h with
  | nil => exact ⟨rfl, rfl⟩
  | single word => exact ⟨openQuote_quoted word, wordsOf_quoted word⟩
  | @cons word next rest gap line hgap hblank h ih =>
    obtain ⟨w, gap, rfl⟩ := List.exists_cons_of_ne_nil hgap
    obtain ⟨hw, hrest⟩ := List.forall_mem_cons.1 hblank
    have hquote : openQuote (w :: gap) = none :=
      openQuote_of_forall fun c hc => not_isQuote_of_isBlank (hblank c hc)
    constructor
    · rw [List.append_assoc, openQuote_append (openQuote_quoted word), openQuote_append hquote, ih.1]
    · rw [List.append_assoc, List.cons_append, wordsOf_append_blank (openQuote_quoted word) hw, wordsOf_quoted,
        wordsOf_blanks_append hrest, ih.2]
      rfl

/-- **The words of a line.** Words that are written with all of their characters quoted are read back, whatever blanks
stand before, between and behind them. A line can be cut at every blank that is not quoted. A line without quotes is
split at its blanks, and empty pieces are dropped. -/
theorem words_faithful :
    (∀ (list : List String) (before line after : List Char), Written list line →
      (∀ c ∈ before, Text.isBlank c = true) → (∀ c ∈ after, Text.isBlank c = true) →
      words (String.ofList (before ++ line ++ after)) = list) ∧
    (∀ (a b : String) (w : Char), Text.isBlank w = true → openQuote a.toList = none →
      words (a.push w ++ b) = words a ++ words b) ∧
    ∀ line : String, (∀ c ∈ line.toList, ¬ IsQuote c) →
      words line = ((line.toList.splitOnP Text.isBlank).filter (· ≠ [])).map String.ofList := by
  refine ⟨fun list before line after h hbefore hafter => ?_, fun a b w hw ha => ?_, fun line h => ?_⟩
  · obtain ⟨hquote, hwords⟩ := h.read_back
    rw [words_ofList, List.append_assoc, wordsOf_blanks_append hbefore, wordsOf_append_blanks hquote hafter, hwords]
  · have hchars : (a.push w ++ b).toList = a.toList ++ w :: b.toList := by simp
    exact (congrArg wordsOf hchars).trans (wordsOf_append_blank ha hw b.toList)
  · exact wordsOf_of_no_quotes h

/-- A word with a quote in it and an empty one, a line that is cut behind a quoted blank, and one without quotes. -/
theorem words_faithful_spaced :
    words (String.ofList ([' '] ++ (quoted "a'b" ++ ['\t', ' '] ++ quoted "") ++ ['\u00a0'])) = ["a'b", ""] ∧
      words ("'a b'".push ' ' ++ "\"c") = words "'a b'" ++ words "\"c" ∧
      words " a\u2003b " = ["a", "b"] := by
  have hblanks (cs : List Char) (h : cs.all Text.isBlank = true) : ∀ c ∈ cs, Text.isBlank c = true :=
    List.all_eq_true.1 h
  have hunquoted : ∀ c ∈ " a\u2003b ".toList, ¬ IsQuote c := by simp [IsQuote]
  refine ⟨words_faithful.1 _ _ _ _ (.cons "a'b" (by decide) (hblanks _ rfl) (.single "")) (hblanks _ rfl)
    (hblanks _ rfl), words_faithful.2.1 _ _ ' ' (by decide) (by decide), ?_⟩
  rw [words_faithful.2.2 _ hunquoted]
  decide

end ToolchainHost.Command
