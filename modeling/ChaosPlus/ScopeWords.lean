import Mathlib.Data.List.Destutter
import Mathlib.Data.List.Sort
import ChaosPlus.GoText

/-!
# Scopes as words

A list of scopes is stored as one text. Here is how the text is taken apart into words, how
words are put together again, and which requested words a text allows.
-/
namespace ScopeWords

open GoText (isSpace trimmed)

/-! ## Words -/

/-- `word` is the word that is open where the scan stands. -/
def fieldsFrom : List Char → List Char → List (List Char)
  | word, [] => if word = [] then [] else [word]
  | word, c :: rest =>
    if isSpace c then if word = [] then fieldsFrom [] rest else word :: fieldsFrom [] rest
    else fieldsFrom (word ++ [c]) rest

/-- `strings.Fields`. -/
def fields (text : String) : List String := (fieldsFrom [] text.toList).map String.ofList

def joinChars : List (List Char) → List Char
  | [] => []
  | [word] => word
  | word :: next :: rest => word ++ ' ' :: joinChars (next :: rest)

/-- `strings.Join` with a blank. -/
def join (words : List String) : String := String.ofList (joinChars (words.map String.toList))

def commasToBlanks (text : String) : String :=
  String.ofList (text.toList.map fun c => if c = ',' then ' ' else c)

def containsWord (words target : String) : Bool := (fields (commasToBlanks words)).contains target

def allowedScopes (allowed requested : String) : Bool :=
  (fields requested).all fun scope => containsWord allowed scope

/-- `slices.Sort` and `slices.Compact`. -/
def sortedWords (words : List String) : List String :=
  (words.insertionSort (· ≤ ·)).destutter (· ≠ ·)

def normalizeWords (value : String) : String := join (sortedWords (fields value))

/-- A word has a character and no white space. -/
def IsWord (word : List Char) : Prop := word ≠ [] ∧ ∀ c ∈ word, isSpace c = false

theorem isWord_of_mem_fieldsFrom {word text found : List Char} (hopen : ∀ c ∈ word, isSpace c = false)
    (h : found ∈ fieldsFrom word text) : IsWord found := by
  induction text generalizing word with
  | nil =>
    unfold fieldsFrom at h
    split_ifs at h with hnil
    · cases h
    · rw [List.mem_singleton.mp h]
      exact ⟨hnil, hopen⟩
  | cons c rest ih =>
    have hempty : ∀ c ∈ ([] : List Char), isSpace c = false := fun _ hc => absurd hc List.not_mem_nil
    unfold fieldsFrom at h
    split_ifs at h with hspace hnil
    · exact ih hempty h
    · rcases List.mem_cons.mp h with rfl | hlater
      · exact ⟨hnil, hopen⟩
      · exact ih hempty hlater
    · refine ih (fun d hd => ?_) h
      rcases List.mem_append.mp hd with hold | hnew
      · exact hopen d hold
      · rw [List.mem_singleton.mp hnew]
        exact Bool.not_eq_true _ ▸ hspace

theorem fieldsFrom_append {word more text : List Char} (hmore : ∀ c ∈ more, isSpace c = false) :
    fieldsFrom word (more ++ text) = fieldsFrom (word ++ more) text := by
  induction more generalizing word with
  | nil => simp
  | cons c more ih =>
    have hc : isSpace c = false := hmore c List.mem_cons_self
    have hrest := @ih (word ++ [c]) fun d hd => hmore d (List.mem_cons_of_mem _ hd)
    rw [List.cons_append, fieldsFrom, hc, if_neg Bool.false_ne_true, hrest, List.append_assoc]
    rfl

theorem fieldsFrom_joinChars {words : List (List Char)} (hwords : ∀ word ∈ words, IsWord word) :
    fieldsFrom [] (joinChars words) = words := by
  induction words with
  | nil => rfl
  | cons word rest ih =>
    obtain ⟨hne, hspace⟩ := hwords word List.mem_cons_self
    have hrest := ih fun other hother => hwords other (List.mem_cons_of_mem _ hother)
    cases rest with
    | nil =>
      have happend := @fieldsFrom_append [] word [] hspace
      rw [List.append_nil] at happend
      rw [joinChars, happend]
      exact if_neg hne
    | cons next later =>
      rw [joinChars, fieldsFrom_append hspace, List.nil_append, fieldsFrom]
      rw [if_pos (by decide), if_neg hne, hrest]

theorem fields_join {words : List String} (hwords : ∀ word ∈ words, IsWord word.toList) :
    fields (join words) = words := by
  have hchars : ∀ word ∈ words.map String.toList, IsWord word := by
    intro word hword
    obtain ⟨text, htext, rfl⟩ := List.mem_map.mp hword
    exact hwords text htext
  rw [fields, join, String.toList_ofList, fieldsFrom_joinChars hchars, List.map_map]
  exact (List.map_congr_left fun word _ => String.ofList_toList).trans (List.map_id _)

theorem isWord_of_mem_fields {text word : String} (h : word ∈ fields text) : IsWord word.toList := by
  obtain ⟨found, hfound, rfl⟩ := List.mem_map.mp h
  rw [String.toList_ofList]
  exact isWord_of_mem_fieldsFrom (fun _ hc => absurd hc List.not_mem_nil) hfound

theorem mem_of_mem_sortedWords {words : List String} {word : String} (h : word ∈ sortedWords words) :
    word ∈ words := by
  have hsorted := (List.destutter_sublist _ _).subset h
  exact (List.mem_insertionSort _).mp hsorted

/-- Putting the words of a text in order adds no word. -/
theorem mem_fields_normalizeWords {value word : String} (h : word ∈ fields (normalizeWords value)) :
    word ∈ fields value := by
  rw [normalizeWords, fields_join fun other hother =>
    isWord_of_mem_fields (mem_of_mem_sortedWords hother)] at h
  exact mem_of_mem_sortedWords h

theorem containsWord_of_allowed {allowed requested word : String}
    (h : allowedScopes allowed requested = true) (hword : word ∈ fields requested) :
    word ∈ fields (commasToBlanks allowed) := by
  have hcontains := List.all_eq_true.mp h word hword
  exact List.contains_iff_mem.mp hcontains

/-! ## The scopes given to a credential or a client -/

/-- The words that the stored text is read as are the scopes it was made of. -/
@[irreducible] def plain (scopes : List String) : Bool :=
  (fields (commasToBlanks (join scopes))).all fun word => scopes.contains word

/-- Exactly where the scopes are plain, no request gets a scope beyond them. -/
theorem allowed_within_iff {scopes : List String} :
    (∀ requested, allowedScopes (join scopes) requested = true →
      ∀ word ∈ fields requested, word ∈ scopes) ↔ plain scopes = true := by
  unfold plain
  constructor
  · intro hwithin
    refine List.all_eq_true.mpr fun word hword => List.contains_iff_mem.mpr ?_
    have halone : fields word = [word] := by
      have hjoin := @fields_join [word] fun other hother =>
        List.mem_singleton.mp hother ▸ isWord_of_mem_fields hword
      simpa [join, joinChars] using hjoin
    refine hwithin word (List.all_eq_true.mpr fun other hother => ?_) word (halone ▸ List.mem_singleton_self _)
    rw [halone] at hother
    rw [List.mem_singleton.mp hother]
    exact List.contains_iff_mem.mpr hword
  · intro hplain requested hallowed word hword
    have hread := containsWord_of_allowed hallowed hword
    exact List.contains_iff_mem.mp (List.all_eq_true.mp hplain word hread)

example : plain ["a,b"] = false ∧ plain ["a", "b:c"] = true := by decide +kernel

end ScopeWords
